import ReplicatedDB.Protocol.CrashRecovery
import ReplicatedDB.Replay.Tape

/-!
# A leader that starts again

A node that starts again is told by the others who the leader is. If they name the node itself, then
it takes up its office with nothing in its store, and does not recover. It does not know any rounds
either, so its attempts start again at round 0, where the others have logged what was set long ago:
each set is acknowledged, and brings back the value of an old one.

`TapeState` is the database as it looks then: the values that were set under a key are on a tape
(`ReplicatedDB.Replay.Tape`), which is rewound when the leader starts again, and wound to its end
when a node is elected that has not. `Retraces` relates it to the nodes. So every session gets the
answers of the tapes (`replayed`). Those of the clients of a leader that has started again are the
oldest values, while all of them are still there for the next leader (`rewound`).
-/

namespace ReplicatedDB

open Rpc Rpc.Net Replay

/-! ### The abstract database -/

/-- The database as it looks from the outside. -/
structure TapeState where
  leader : Option String := none
  /-- The values of each key, up to the head those that the leader knows of. -/
  tape : String → Tape String := fun _ ↦ {}
  /-- The nodes that have not started again. -/
  whole : Finset String

namespace TapeState

variable (x : TapeState)

/-- What clients are answered. -/
def call (a : String) : Task → Reply × TapeState
  | .electLeader _ _ => ({}, { x with leader := some a, tape := fun key ↦ (x.tape key).wind })
  | .set key value =>
    if x.leader = none then (noLeader, x)
    else ({}, { x with tape := Function.update x.tape key ((x.tape key).write value) })
  | .get key => (if x.leader = none then noLeader else found (x.tape key).current, x)
  | .attemptConsensus _ | .coordinate => ({}, x)

/-- The node `a` starts again. -/
def start (a : String) : TapeState :=
  { x with
    tape := if x.leader = some a then fun key ↦ (x.tape key).rewind else x.tape
    whole := x.whole.erase a }

/-- What clients ask of a node: elections only of nodes that have not started again. -/
def Serves (a : String) : Task → Prop
  | .set key _ | .get key => key ≠ "leader"
  | .electLeader key value => key = "leader" ∧ value = a ∧ a ∈ x.whole
  | .attemptConsensus _ | .coordinate => False

instance (a : String) : (t : Task) → Decidable (x.Serves a t)
  | .set _ _ | .get _ => inferInstanceAs (Decidable (_ ≠ _))
  | .electLeader _ _ => inferInstanceAs (Decidable (_ ∧ _))
  | .attemptConsensus _ | .coordinate => inferInstanceAs (Decidable False)

end TapeState

section Machine

variable (cl : Cluster)

/-- The replicated database from the outside, while all nodes are up and one of them or the other
starts again, but not all of them. -/
def tapeMachine : Machine Db TapeState where
  up _ := cl.memberList.toFinset
  allows x
    | .call a t => a ∈ cl.memberList ∧ x.Serves a t
    | .stop _ => False
    | .start a => a ∈ cl.memberList ∧ x.leader ≠ none ∧ (x.whole.erase a).Nonempty
  next x
    | .call a t => ((x.call a t).1, (x.call a t).2)
    | .stop _ => (none, x)
    | .start a => (some {}, x.start a)

instance (x : TapeState) : (d : Deed Db) → Decidable ((tapeMachine cl).allows x d)
  | .call a t => inferInstanceAs (Decidable (a ∈ cl.memberList ∧ x.Serves a t))
  | .stop _ => inferInstanceAs (Decidable False)
  | .start a => inferInstanceAs (Decidable
      (a ∈ cl.memberList ∧ x.leader ≠ none ∧ (x.whole.erase a).Nonempty))

/-- No node has started again, and nothing was set. -/
def freshTapes : TapeState where
  whole := cl.memberList.toFinset

end Machine

/-! ### Logs with missing rounds -/

variable {cl : Cluster} {N N' : String → Replica} {x : TapeState} {R s : Replica}
  {a y key value : String} {q r : Request}

/-- The node `s` lacks some of the rounds of `R`, and knows the same leader. -/
structure Within (s R : Replica) : Prop where
  leader : s.leader = R.leader
  entry : ∀ key, ∀ round ∈ (s.log key).keys,
    round ∈ (R.log key).keys ∧ (s.log key).entry round = (R.log key).entry round

theorem Within.refl (R : Replica) : Within R R := ⟨rfl, fun _ _ h ↦ ⟨h, rfl⟩⟩

/-- An entry of a node is that of `R`, or there is none. -/
theorem Within.entry_or (h : Within s R) (key : String) (round : ℤ) :
    (s.log key).entry round = (R.log key).entry round ∨ (s.log key).entry round = {} := by
  by_cases hmem : round ∈ (s.log key).keys
  · exact .inl (h.entry key round hmem).2
  · exact .inr (Log.entry_of_notMem hmem)

theorem log_commit (s : Replica) (q : Request) (key : String) :
    (s.commit q).log key = (s.paxLog.modify q.key q.round fun e ↦ e.accepted q).rounds key := rfl

theorem keys_commit (s : Replica) (q : Request) (key : String) : ((s.commit q).log key).keys =
    if key = q.key then insert q.round (s.log key).keys else (s.log key).keys :=
  PaxLog.keys_modify ..

theorem entry_commit (s : Replica) (q : Request) (key : String) (round : ℤ) :
    ((s.commit q).log key).entry round = if key = q.key ∧ round = q.round
      then ((s.log q.key).entry q.round).accepted q else (s.log key).entry round :=
  PaxLog.entry_modify ..

/-- Both commit the same request. -/
theorem Within.commit (h : Within s R)
    (hpromise : ∀ key round, ((R.log key).entry round).pServerId = 0)
    (hcur : q.key = "leader" → Current q R) : Within (s.commit q) (R.commit q) where
  leader := by
    rw [Replica.commit, Replica.commit]
    by_cases hkey : q.key = "leader"
    · have hcur' : Current q s := fun round hround ↦ hcur hkey round (h.entry _ _ hround).1
      simp only [hcur hkey, hcur', true_and, h.leader]
    · simp only [hkey, and_false, if_false, h.leader]
  entry key round hround := by
    rw [keys_commit] at hround
    rw [keys_commit, entry_commit, entry_commit]
    by_cases hslot : key = q.key ∧ round = q.round
    · obtain ⟨rfl, rfl⟩ := hslot
      refine ⟨by simp, ?_⟩
      -- nobody has promised anything in this slot
      have hp : ((s.log q.key).entry q.round).pServerId =
          ((R.log q.key).entry q.round).pServerId := by
        rcases h.entry_or q.key q.round with heq | hnone
        · rw [heq]
        · rw [hnone, hpromise]
      rw [if_pos ⟨rfl, rfl⟩, if_pos ⟨rfl, rfl⟩, LogEntry.accepted, LogEntry.accepted, hp]
    · have hmem : round ∈ (s.log key).keys := by
        split at hround
        · rename_i hkey
          exact (Finset.mem_insert.1 hround).resolve_left fun heq ↦ hslot ⟨hkey, heq⟩
        · exact hround
      rw [if_neg hslot, if_neg hslot]
      refine ⟨?_, (h.entry key round hmem).2⟩
      split
      · exact Finset.mem_insert_of_mem (h.entry key round hmem).1
      · exact (h.entry key round hmem).1

/-! ### Logs and tapes -/

/-- The values of a tape are those of the rounds of its key, and the last one is stored. -/
structure OnTape (R : Replica) (key : String) (t : Tape String) : Prop where
  keys : (R.log key).keys = Finset.Ico 0 (t.values.length : ℤ)
  entry : ∀ (i : ℕ) (value : String), t.values[i]? = some value →
    ∃ op, (R.log key).entry i = ⟨0, 1, op, value⟩
  store : R.kvStore.lookup key = t.values.getLast?

/-- What is accepted when a value is written: the next round that the leader does not know of, and
if it was logged before, with what was logged. -/
structure Plays (q : Request) (R : Replica) (k : String) (t : Tape String) (v : String) : Prop where
  key : q.key = k
  round : q.round = t.past.length
  pserverId : q.pserverId = 1
  value : q.value = t.next v
  op : t.future ≠ [] → q.op = ((R.log k).entry t.past.length).op

section Tapes

variable {t : Tape String}

theorem OnTape.log_entry_next (h : OnTape R key t) (hne : t.future ≠ []) (value : String) :
    (R.log key).entry t.past.length =
      ⟨0, 1, ((R.log key).entry t.past.length).op, t.next value⟩ := by
  obtain ⟨op, hop⟩ := h.entry _ _ (Tape.getElem?_next hne value)
  rw [hop]

/-- Only the values of a tape matter. -/
theorem OnTape.congr {t' : Tape String} (h : OnTape R key t) (hvalues : t'.values = t.values) :
    OnTape R key t' := ⟨hvalues ▸ h.keys, hvalues ▸ h.entry, hvalues ▸ h.store⟩

/-- A round that is logged is that of a value. -/
theorem OnTape.entry_of_mem (h : OnTape R key t) {round : ℤ} (hround : round ∈ (R.log key).keys) :
    ∃ op value, (R.log key).entry round = ⟨0, 1, op, value⟩ := by
  rw [h.keys, Finset.mem_Ico] at hround
  obtain ⟨i, rfl⟩ := Int.eq_ofNat_of_zero_le hround.1
  have hlt : i < t.values.length := by omega
  obtain ⟨op, hop⟩ := h.entry i _ (List.getElem?_eq_getElem hlt)
  exact ⟨op, _, hop⟩

theorem OnTape.gapless (h : OnTape R key t) : Gapless (R.log key) := by
  refine ⟨t.values.length, h.keys, fun round hround ↦ ?_⟩
  obtain ⟨op, value, heq⟩ := h.entry_of_mem hround
  rw [Log.Accepted, heq]
  exact one_pos

theorem OnTape.promise (h : OnTape R key t) (round : ℤ) :
    ((R.log key).entry round).pServerId = 0 := by
  by_cases hround : round ∈ (R.log key).keys
  · obtain ⟨op, value, heq⟩ := h.entry_of_mem hround
    rw [heq]
  · rw [Log.entry_of_notMem hround]

/-- **What is played back** changes nothing at a node that has it. -/
theorem OnTape.commit_of_ne (h : OnTape R key t) (hq : Plays q R key t value)
    (hkey : key ≠ "leader") (hne : t.future ≠ []) : R.commit q = R := by
  obtain ⟨hk, hround, hid, hvalue, hop⟩ := hq
  have hlt : t.past.length < t.values.length := by
    rw [Tape.values, List.length_append]
    have hpos := List.length_pos_iff.2 hne
    omega
  have hlog : R.paxLog.modify q.key q.round (fun e ↦ e.accepted q) = R.paxLog := by
    rw [hk, hround]
    refine PaxLog.modify_eq_self ?_ ?_
    · change _ ∈ (R.log key).keys
      rw [h.keys, Finset.mem_Ico]
      omega
    · change ((R.log key).entry t.past.length).accepted q = (R.log key).entry t.past.length
      rw [LogEntry.accepted, hid, hop hne, hvalue, h.log_entry_next hne value]
  have hstore : (if Current q R ∧ q.key ≠ "leader" then R.kvStore.setKV q.key q.value
      else R.kvStore) = R.kvStore := by
    split
    · rename_i hcur
      rw [hk]
      refine KVStore.setKV_eq_self ?_
      -- only the last value is stored again
      have hlast : t.values.length ≤ t.past.length + 1 := by
        have hmem : ((t.values.length - 1 : ℕ) : ℤ) ∈ (R.log key).keys := by
          rw [h.keys, Finset.mem_Ico]
          omega
        have hle := hcur.1 _ (hk ▸ hmem)
        omega
      rw [h.store, hvalue, List.getLast?_eq_getElem?,
        show t.values.length - 1 = t.past.length by omega]
      exact Tape.getElem?_next hne value
    · rfl
  have hleader : (if Current q R ∧ q.key = "leader" then q.value else R.leader) = R.leader :=
    if_neg fun hc ↦ hkey (hk ▸ hc.2)
  rw [Replica.commit, hlog, hstore, hleader]

/-- **What is written at the end** is logged in a new round, and stored. -/
theorem OnTape.commit_of_nil (h : OnTape R key t) (hq : Plays q R key t value)
    (hkey : key ≠ "leader") (hnil : t.future = []) : OnTape (R.commit q) key (t.write value) := by
  obtain ⟨hk, hround, hid, hvalue, -⟩ := hq
  have hlen : t.values.length = t.past.length := by
    rw [Tape.values, hnil, List.append_nil]
  have hvalues := Tape.values_write_of_nil hnil value
  rw [Tape.next_of_nil hnil] at hvalue
  refine ⟨?_, fun i v hi ↦ ?_, ?_⟩
  · rw [keys_commit, if_pos hk.symm, h.keys, hvalues, hround, ← hlen, List.length_append]
    ext round
    simp only [Finset.mem_insert, Finset.mem_Ico, List.length_singleton]
    omega
  · rw [hvalues] at hi
    rw [entry_commit, hk]
    rcases Nat.lt_or_ge i t.values.length with hlt | hge
    · rw [List.getElem?_append_left hlt] at hi
      rw [if_neg fun hc ↦ by omega]
      exact h.entry i v hi
    · rw [List.getElem?_append_right hge] at hi
      have hzero : i - t.values.length = 0 := by
        by_contra hne
        rw [List.getElem?_singleton, if_neg hne] at hi
        cases hi
      rw [hzero] at hi
      obtain rfl := Option.some.inj hi
      rw [if_pos ⟨rfl, by omega⟩, Log.entry_of_notMem fun hmem ↦ ?_]
      · exact ⟨q.op, by rw [LogEntry.accepted, hid, hvalue]⟩
      · rw [h.keys, Finset.mem_Ico] at hmem
        omega
  · have hcur : Current q R := fun round hmem ↦ by
      rw [hk, h.keys, Finset.mem_Ico] at hmem
      omega
    rw [hvalues, List.getLast?_concat, Replica.commit, hk]
    simp only [hcur, hkey, true_and, ne_eq, not_false_eq_true, if_true]
    rw [hvalue]
    exact KVStore.lookup_setKV_self _ _ _

/-- **One more value** is written. -/
theorem OnTape.commit (h : OnTape R key t) (hq : Plays q R key t value) (hkey : key ≠ "leader") :
    OnTape (R.commit q) key (t.write value) := by
  by_cases hnil : t.future = []
  · exact h.commit_of_nil hq hkey hnil
  · rw [h.commit_of_ne hq hkey hnil]
    exact h.congr (Tape.values_write_of_ne hnil value)

/-- A commit under another key changes nothing of this one. -/
theorem OnTape.commit_other (h : OnTape R key t) (hkey : key ≠ q.key) :
    OnTape (R.commit q) key t where
  keys := by rw [keys_commit, if_neg hkey, h.keys]
  entry i v hi := by
    rw [entry_commit, if_neg fun hc ↦ hkey hc.1]
    exact h.entry i v hi
  store := by
    rw [Replica.commit]
    split
    · exact (KVStore.lookup_setKV_of_ne _ _ hkey).trans h.store
    · exact h.store

end Tapes

/-! ### The simulation -/

/-- The nodes that have not started again are in the state `R`, whose logs are the tapes. The others
lack rounds of it, the leader those behind the heads. -/
structure Retraces (cl : Cluster) (N : String → Replica) (x : TapeState) (R : Replica) : Prop where
  nodes : ∀ d ∈ cl.memberList, Within (N d) R
  whole : ∀ d ∈ x.whole, d ∈ cl.memberList ∧ N d = R
  whole_nonempty : x.whole.Nonempty
  tape : ∀ key, key ≠ "leader" → OnTape R key (x.tape key)
  control : Gapless (R.log "leader") ∧ ∀ round, ((R.log "leader").entry round).pServerId = 0
  leader : R.leader = x.leader.getD ""
  led : ∀ y ∈ x.leader, y ∈ cl.memberList ∧ ∀ key, key ≠ "leader" →
    ((N y).log key).keys = Finset.Ico 0 ((x.tape key).past.length : ℤ) ∧
      (N y).kvStore.lookup key = (x.tape key).current

/-- Logs without gaps, and without promises. -/
theorem Retraces.uniform (h : Retraces cl N x R) : Uniform cl (fun _ ↦ R) R where
  nodes _ _ := rfl
  gapless key := by
    by_cases hkey : key = "leader"
    · rw [hkey]
      exact h.control.1
    · exact (h.tape key hkey).gapless
  promise key round := by
    by_cases hkey : key = "leader"
    · rw [hkey]
      exact h.control.2 round
    · exact (h.tape key hkey).promise round

/-- All nodes know the leader. -/
theorem Retraces.leader_eq (h : Retraces cl N x R) (hy : x.leader = some y)
    (ha : a ∈ cl.memberList) : (N a).leader = y := by
  rw [(h.nodes a ha).leader, h.leader, hy, Option.getD_some]

/-- Nobody refuses a proposal. -/
theorem Retraces.willing (h : Retraces cl N x R) (r : Request) (round : ℤ) {d : String}
    (hd : d ∈ cl.memberList) : Willing (prepareRequest r round) (N d) := by
  rw [Willing]
  rcases (h.nodes d hd).entry_or (prepareRequest r round).key (prepareRequest r round).round
    with heq | hnone
  · rw [heq, h.uniform.promise]
    exact zero_le_one
  · rw [hnone]
    exact zero_le_one

/-- **An attempt**: what the answers to its proposal add up to decides what all nodes commit. -/
theorem Retraces.evals_attempt (h : Retraces cl N x R) (a : String) (r : Request) {round : ℤ}
    {v : Proposals} (hround : Log.size ((N a).log r.key) = round)
    (hv : proposals cl (Plan.among cl.memberList.toFinset) (prepareRequest r round) cl.memberList N
      = v) :
    Evals (db cl) (Plan.among cl.memberList.toFinset) a (attemptConsensus cl.memberList r) N
      { response := acceptResponse (acceptRequest r round v) }
      (committedAt cl.memberList.toFinset (acceptRequest r round v) N) := by
  have hall : cl.memberList.filter (· ∈ cl.memberList.toFinset) = cl.memberList :=
    List.filter_eq_self.2 fun d hd ↦ decide_eq_true (List.mem_toFinset.2 hd)
  refine evals_attempt_up (fun d hd ↦ hd) ?_ r rfl (by rw [hall, hround, hv])
    fun d hd ↦ h.willing r _ (List.mem_toFinset.1 hd)
  rw [List.toFinset_card_of_nodup cl.nodup]
  exact not_noQuorum_self _

/-- A proposal of a round that nobody has logged finds nothing to adopt. -/
theorem Retraces.proposals_of_free (h : Retraces cl N x R) {p : Request}
    (hp : ∃ r round, prepareRequest r round = p) (hfree : p.round ∉ (R.log p.key).keys) :
    proposals cl (Plan.among cl.memberList.toFinset) p cl.memberList N =
      { numAcceptedProposals := cl.memberList.length } := by
  obtain ⟨r, round, rfl⟩ := hp
  refine ReplicatedDB.proposals_of_free
    (fun d hd ↦ among_of_mem (S := Db) (List.mem_toFinset.2 hd) _)
    (fun d hd ↦ h.willing r round hd) fun d hd hacc ↦ ?_
  exact hfree ((h.nodes d hd).entry _ _ (Log.mem_keys_of_accepted hacc)).1

/-- A proposal of a round that somebody has logged finds what was accepted. -/
theorem Retraces.proposals_of_logged (h : Retraces cl N x R) {p : Request} {op : Operation}
    {value : String} (hp : ∃ r round, prepareRequest r round = p)
    (hentry : (R.log p.key).entry p.round = ⟨0, 1, op, value⟩) :
    proposals cl (Plan.among cl.memberList.toFinset) p cl.memberList N =
      ⟨cl.memberList.length, 1, value, op⟩ := by
  obtain ⟨r, round, rfl⟩ := hp
  refine proposals_of_adopted (fun d hd ↦ among_of_mem (S := Db) (List.mem_toFinset.2 hd) _)
    (fun d hd ↦ h.willing r round hd) (fun d hd hacc ↦ ⟨0, ?_⟩) ?_
  · rw [← hentry]
    exact ((h.nodes d hd).entry _ _ (Log.mem_keys_of_accepted hacc)).2
  · obtain ⟨d, hd⟩ := h.whole_nonempty
    refine ⟨d, (h.whole d hd).1, ?_⟩
    rw [(h.whole d hd).2, Log.Accepted, hentry]
    exact one_pos

/-- **What an attempt for a set commits**: the value that the tape says. -/
theorem Retraces.evals_setAttempt (h : Retraces cl N x R) (hy : x.leader = some y)
    (hkey : key ≠ "leader") (value : String) : ∃ q, Plays q R key (x.tape key) value ∧
      Evals (db cl) (Plan.among cl.memberList.toFinset) y
        (attemptConsensus cl.memberList (setRequest key value)) N
        { response := acceptResponse q } (committedAt cl.memberList.toFinset q N) := by
  have htape := h.tape key hkey
  have hsize : Log.size ((N y).log (setRequest key value).key) = (x.tape key).past.length := by
    change Log.size ((N y).log key) = _
    rw [Log.size, ((h.led y hy).2 key hkey).1, Int.card_Ico, sub_zero, Int.toNat_natCast]
  by_cases hnil : (x.tape key).future = []
  · have hfree : ((x.tape key).past.length : ℤ) ∉ (R.log key).keys := by
      rw [htape.keys, Tape.values, hnil, List.append_nil, Finset.mem_Ico]
      omega
    refine ⟨_, ?_, h.evals_attempt y _ hsize
      (h.proposals_of_free ⟨setRequest key value, _, rfl⟩ hfree)⟩
    exact ⟨rfl, rfl, rfl, (Tape.next_of_nil hnil value).symm, fun hne ↦ absurd hnil hne⟩
  · refine ⟨_, ?_, h.evals_attempt y _ hsize
      (h.proposals_of_logged ⟨setRequest key value, _, rfl⟩ (htape.log_entry_next hnil value))⟩
    exact ⟨rfl, rfl, rfl, rfl, fun _ ↦ rfl⟩

/-! ### What is kept -/

/-- A request under a key of clients does not change the leader. -/
theorem leader_commit (s : Replica) (hkey : q.key ≠ "leader") : (s.commit q).leader = s.leader :=
  if_neg fun hc ↦ hkey hc.2

/-- **A set** writes on the tape of its key. -/
theorem Retraces.set (h : Retraces cl N x R) (hy : x.leader = some y) (hkey : key ≠ "leader")
    (hq : Plays q R key (x.tape key) value) :
    Retraces cl (committedAt cl.memberList.toFinset q N)
      { x with tape := Function.update x.tape key ((x.tape key).write value) } (R.commit q) where
  nodes d hd := by
    rw [committedAt, if_pos (List.mem_toFinset.2 hd)]
    exact (h.nodes d hd).commit h.uniform.promise fun hleader ↦ absurd (hq.key ▸ hleader) hkey
  whole d hd := by
    obtain ⟨hmem, hR⟩ := h.whole d hd
    rw [committedAt, if_pos (List.mem_toFinset.2 hmem), hR]
    exact ⟨hmem, rfl⟩
  whole_nonempty := h.whole_nonempty
  tape key' hkey' := by
    show OnTape (R.commit q) key'
      (Function.update x.tape key ((x.tape key).write value) key')
    by_cases hkk : key' = key
    · subst hkk
      rw [Function.update_self]
      exact (h.tape key' hkey).commit hq hkey
    · rw [Function.update_of_ne hkk]
      exact (h.tape key' hkey').commit_other (hq.key ▸ hkk)
  control := by
    have hne : "leader" ≠ q.key := hq.key ▸ Ne.symm hkey
    rw [log_commit, PaxLog.rounds_modify_of_ne _ _ _ hne]
    exact h.control
  leader := (leader_commit R (hq.key ▸ hkey)).trans h.leader
  led y' hy' := by
    obtain rfl := Option.some.inj (hy.symm.trans hy')
    obtain ⟨hmem, htapes⟩ := h.led y hy
    refine ⟨hmem, fun key' hkey' ↦ ?_⟩
    obtain ⟨hkeys, hstore⟩ := htapes key' hkey'
    rw [committedAt, if_pos (List.mem_toFinset.2 hmem), keys_commit]
    show _ = Finset.Ico 0 ((Function.update x.tape key ((x.tape key).write value)
      key').past.length : ℤ) ∧ _ = (Function.update x.tape key _ key').current
    by_cases hkk : key' = key
    · subst hkk
      have hcur : Current q (N y) := fun round hround ↦ by
        rw [hq.key, hkeys, Finset.mem_Ico] at hround
        rw [hq.round]
        exact hround.2.le
      rw [Function.update_self, if_pos hq.key.symm, hkeys, hq.round, Tape.current_write]
      refine ⟨?_, ?_⟩
      · ext round
        rw [Tape.write, List.length_append, List.length_singleton]
        simp only [Finset.mem_insert, Finset.mem_Ico]
        omega
      · rw [Replica.commit, if_pos ⟨hcur, hq.key ▸ hkey⟩, hq.key, hq.value]
        exact KVStore.lookup_setKV_self _ _ _
    · rw [Function.update_of_ne hkk, if_neg (hq.key ▸ hkk)]
      refine ⟨hkeys, ?_⟩
      rw [Replica.commit, ← hstore]
      split
      · exact KVStore.lookup_setKV_of_ne _ _ (hq.key ▸ hkk)
      · rfl

/-- **An election** of a node that has not started again winds the tapes. -/
theorem Retraces.elect (h : Retraces cl N x R) (ha : a ∈ x.whole) :
    Retraces cl
      (committedAt cl.memberList.toFinset (ownRequest (electRequest "leader" a) R) N)
      { x with leader := some a, tape := fun key ↦ (x.tape key).wind }
      (R.commit (ownRequest (electRequest "leader" a) R)) where
  nodes d hd := by
    rw [committedAt, if_pos (List.mem_toFinset.2 hd)]
    exact (h.nodes d hd).commit h.uniform.promise fun _ ↦ h.uniform.current _
  whole d hd := by
    obtain ⟨hmem, hR⟩ := h.whole d hd
    rw [committedAt, if_pos (List.mem_toFinset.2 hmem), hR]
    exact ⟨hmem, rfl⟩
  whole_nonempty := h.whole_nonempty
  tape key hkey := ((h.tape key hkey).commit_other hkey).congr (Tape.values_wind _)
  control := by
    have hnext := h.uniform.commit (electRequest "leader" a)
    exact ⟨hnext.gapless "leader", hnext.promise "leader"⟩
  leader := (h.uniform.commit_leader (r := electRequest "leader" a) rfl).2
  led a' ha' := by
    obtain rfl := Option.some.inj ha'
    obtain ⟨hmem, hR⟩ := h.whole a ha
    refine ⟨hmem, fun key hkey ↦ ?_⟩
    rw [committedAt, if_pos (List.mem_toFinset.2 hmem), hR]
    have htape := (h.tape key hkey).commit_other (q := ownRequest (electRequest "leader" a) R) hkey
    exact ⟨htape.keys, htape.store⟩

/-- **The leader starts again**: the tapes are rewound. -/
theorem Retraces.restart (h : Retraces cl N x R) (hy : x.leader = some y)
    (ha : a ∈ cl.memberList) (hwhole : (x.whole.erase a).Nonempty) {kv : KVStore}
    (hkv : a = y → kv = ∅) :
    Retraces cl (Function.update N a { kvStore := kv, leader := y }) (x.start a) R where
  nodes d hd := by
    by_cases hda : d = a
    · subst hda
      rw [Function.update_self]
      exact ⟨by rw [h.leader, hy, Option.getD_some], fun key round hround ↦
        absurd hround (Finset.notMem_empty round)⟩
    · rw [Function.update_of_ne hda]
      exact h.nodes d hd
  whole d hd := by
    obtain ⟨hda, hd⟩ := Finset.mem_erase.1 hd
    rw [Function.update_of_ne hda]
    exact h.whole d hd
  whole_nonempty := hwhole
  tape key hkey := by
    refine (h.tape key hkey).congr ?_
    rw [TapeState.start]
    split <;> rfl
  control := h.control
  leader := h.leader
  led y' hy' := by
    obtain rfl := Option.some.inj (hy.symm.trans hy')
    obtain ⟨hmem, htapes⟩ := h.led y hy
    refine ⟨hmem, fun key hkey ↦ ?_⟩
    by_cases hya : y = a
    · subst hya
      rw [Function.update_self, hkv rfl, TapeState.start, if_pos hy]
      exact ⟨rfl, rfl⟩
    · have hne : x.leader ≠ some a := fun heq ↦ hya (Option.some.inj (hy.symm.trans heq))
      rw [Function.update_of_ne hya, TapeState.start, if_neg hne]
      exact htapes key hkey

/-! ### The refinement -/

/-- A set is answered as by the tapes. -/
theorem Retraces.call_set (h : Retraces cl N x R) (ha : a ∈ cl.memberList) (hkey : key ≠ "leader")
    (value : String) : ∃ N' R', EvalsAmong (db cl) cl.memberList.toFinset a
      (body cl a (.set key value)) N (x.call a (.set key value)).1 N' ∧
        Retraces cl N' (x.call a (.set key value)).2 R' := by
  rw [TapeState.call]
  rcases hy : x.leader with _ | y
  · have hNa : (N a).leader = "" := by rw [(h.nodes a ha).leader, h.leader, hy, Option.getD_none]
    rw [if_pos rfl]
    exact ⟨N, R, evalsAmong_set_noLeader hNa, h⟩
  · have hmem := (h.led y hy).1
    obtain ⟨q, hq, hev⟩ := h.evals_setAttempt hy hkey value
    have hleader : EvalsAmong (db cl) cl.memberList.toFinset y (body cl y (.set key value)) N {}
        _ := evalsAmong_set_leader (h.leader_eq hy hmem) (ne_of_mem_of_not_mem hmem cl.nonempty) hev
    rw [if_neg (Option.some_ne_none y)]
    refine ⟨_, R.commit q, ?_, hy ▸ h.set hy hkey hq⟩
    by_cases hya : y = a
    · rwa [hya] at hleader
    · exact evalsAmong_set_forward (h.leader_eq hy ha) hmem hya
        (evalsAmong_forward (h.leader_eq hy ha) hmem (.inl ⟨List.mem_toFinset.2 hmem, hleader⟩)
          Status.ok_default)

/-- A get is answered as by the tapes. -/
theorem Retraces.call_get (h : Retraces cl N x R) (ha : a ∈ cl.memberList)
    (hkey : key ≠ "leader") : EvalsAmong (db cl) cl.memberList.toFinset a (body cl a (.get key)) N
      (x.call a (.get key)).1 N := by
  rw [TapeState.call]
  rcases hy : x.leader with _ | y
  · have hNa : (N a).leader = "" := by rw [(h.nodes a ha).leader, h.leader, hy, Option.getD_none]
    exact evalsAmong_get_noLeader hNa
  · obtain ⟨hmem, htapes⟩ := h.led y hy
    have hok : (found (x.tape key).current).status.Ok := by
      cases (x.tape key).current <;> exact Status.ok_default
    have hfound : found (x.tape key).current =
        { getResponse := (found (x.tape key).current).getResponse } := by
      cases (x.tape key).current <;> rfl
    have hleader : EvalsAmong (db cl) cl.memberList.toFinset y (body cl y (.get key)) N _ N :=
      evalsAmong_get_leader (h.leader_eq hy hmem) (ne_of_mem_of_not_mem hmem cl.nonempty)
    rw [getAnswer_eq_found, (htapes key hkey).2] at hleader
    rw [if_neg (Option.some_ne_none y)]
    by_cases hya : y = a
    · rwa [hya] at hleader
    · rw [hfound]
      exact evalsAmong_get_forward (h.leader_eq hy ha) hmem hya
        (evalsAmong_forward (h.leader_eq hy ha) hmem (.inl ⟨List.mem_toFinset.2 hmem, hleader⟩) hok)

/-- An election of a node that has not started again. -/
theorem Retraces.call_elect (h : Retraces cl N x R) (ha : a ∈ x.whole) : ∃ N' R',
    EvalsAmong (db cl) cl.memberList.toFinset a (body cl a (.electLeader "leader" a)) N {} N' ∧
      Retraces cl N' (x.call a (.electLeader "leader" a)).2 R' := by
  obtain ⟨hmem, hR⟩ := h.whole a ha
  have hfree : Log.size (R.log "leader") ∉ (R.log "leader").keys := fun hround ↦
    absurd (h.control.1.mem_keys_iff.1 hround).2 (lt_irrefl _)
  have hsize : Log.size ((N a).log (electRequest "leader" a).key) = Log.size (R.log "leader") := by
    rw [hR, electRequest]
  obtain ⟨q, hq⟩ : ∃ q, q = ownRequest (electRequest "leader" a) R := ⟨_, rfl⟩
  have hatt : Evals (db cl) (Plan.among cl.memberList.toFinset) a
      (attemptConsensus cl.memberList (electRequest "leader" a)) N
      ({ response := acceptResponse q } : Reply) (committedAt cl.memberList.toFinset q N) := by
    rw [hq]
    exact h.evals_attempt a (electRequest "leader" a) hsize
      (h.proposals_of_free ⟨electRequest "leader" a, _, rfl⟩ hfree)
  have hvalue : q.value = a := by rw [hq, ownRequest, electRequest]
  have hnext := h.elect ha
  rw [← hq] at hnext
  refine ⟨_, R.commit q, evalsAmong_electLeader hatt Status.ok_default, ?_⟩
  rw [TapeState.call]
  -- the register of the candidate is written once more
  convert hnext using 1
  rw [Function.update_eq_self_iff]
  have hleader : _ = (acceptResponse q).value := (hnext.leader_eq rfl hmem).trans hvalue.symm
  exact congrArg (fun l ↦ Replica.mk _ _ l) hleader.symm

/-- **A node that starts again** copies the store of the leader, or is told that it is the leader
itself. -/
theorem Retraces.evals_start (h : Retraces cl N x R) (hflag : (cl.flags a).leader = false)
    (hy : x.leader = some y) (ha : a ∈ cl.memberList) (hwhole : (x.whole.erase a).Nonempty) :
    ∃ N', EvalsAmong (db cl) (insert a cl.memberList.toFinset) a (body cl a .coordinate)
      (Function.update N a {}) {} N' ∧ Retraces cl N' (x.start a) R := by
  have hup : insert a cl.memberList.toFinset = cl.memberList.toFinset :=
    Finset.insert_eq_of_mem (List.mem_toFinset.2 ha)
  have hmem := (h.led y hy).1
  have hnamed : ∀ d ∈ cl.memberList.toFinset, (Function.update N a {} d).leader = "" ∨
      (Function.update N a {} d).leader = y := fun d hd ↦ by
    by_cases hda : d = a
    · exact .inl (by rw [hda, Function.update_self])
    · rw [Function.update_of_ne hda]
      exact .inr (h.leader_eq hy (List.mem_toFinset.1 hd))
  have hsome : ∃ d ∈ cl.memberList, d ∈ cl.memberList.toFinset ∧
      (Function.update N a {} d).leader = y := by
    obtain ⟨d, hd⟩ := hwhole
    obtain ⟨hda, hd⟩ := Finset.mem_erase.1 hd
    have hdm := (h.whole d hd).1
    refine ⟨d, hdm, List.mem_toFinset.2 hdm, ?_⟩
    rw [Function.update_of_ne hda]
    exact h.leader_eq hy hdm
  rw [hup]
  by_cases hya : y = a
  · subst hya
    have hev := evalsAmong_coordinate_leader hflag hmem (List.mem_toFinset.2 hmem) hnamed hsome
    rw [Function.update_self, Function.update_idem] at hev
    exact ⟨_, hev, h.restart hy ha hwhole fun _ ↦ rfl⟩
  · have hev := evalsAmong_coordinate_copy hflag hmem hya (List.mem_toFinset.2 hmem)
      (by rw [Function.update_self]) hnamed hsome
    rw [Function.update_self, Function.update_idem] at hev
    exact ⟨_, hev, h.restart hy ha hwhole fun heq ↦ absurd heq.symm hya⟩

/-- **The nodes refine the tapes.** -/
theorem refines_tapeMachine (hflags : ∀ a ∈ cl.memberList, (cl.flags a).leader = false) :
    (tapeMachine cl).Refines (db cl) fun N x ↦ ∃ R, Retraces cl N x R where
  call := by
    rintro N x a t ⟨R, h⟩ ⟨ha, ht⟩
    match t, ht with
    | .set key value, hkey =>
      obtain ⟨N', R', hev, h'⟩ := h.call_set ha hkey value
      exact ⟨_, N', hev, rfl, R', h'⟩
    | .get key, hkey => exact ⟨_, N, h.call_get ha hkey, rfl, R, h⟩
    | .electLeader _ _, ⟨rfl, rfl, hwhole⟩ =>
      obtain ⟨N', R', hev, h'⟩ := h.call_elect hwhole
      exact ⟨_, N', hev, rfl, R', h'⟩
  stop := by
    rintro N x a - hno
    exact absurd hno id
  start := by
    rintro N x a ⟨R, h⟩ ⟨ha, hleader, hwhole⟩
    obtain ⟨y, hy⟩ := Option.ne_none_iff_exists'.1 hleader
    obtain ⟨N', hev, h'⟩ := h.evals_start (hflags a ha) hy ha hwhole
    exact ⟨_, N', hev, rfl, R, h'⟩

/-! ### Stories -/

/-- A story of a cluster all nodes of which are up and fresh. -/
abbrev TapeStory (cl : Cluster) : List (Deed Db × Option Reply) → TapeState → Net (db cl) → Prop :=
  Story (tapeMachine cl) (cl.start fun _ ↦ {}) (freshTapes cl)

/-- In a fresh cluster all tapes are empty. -/
theorem retraces_start : Retraces cl (fun _ ↦ {}) (freshTapes cl) {} where
  nodes _ _ := .refl _
  whole _ hd := ⟨List.mem_toFinset.1 hd, rfl⟩
  whole_nonempty := List.toFinset_nonempty_iff _ |>.2 cl.ne_nil
  tape _ _ := ⟨rfl, nofun, rfl⟩
  control := ⟨Gapless.empty, fun _ ↦ rfl⟩
  leader := rfl
  led := nofun

variable {σ : List (Deed Db × Option Reply)} {n : Net (db cl)}

theorem run_of_tapeStory (hflags : ∀ a ∈ cl.memberList, (cl.flags a).leader = false)
    (h : TapeStory cl σ x n) : (∃ R, Retraces cl n.nodes x R) ∧
      (tapeMachine cl).run (freshTapes cl) (σ.map (·.1)) = (σ.map (·.2), x) :=
  h.simulates (refines_tapeMachine hflags) ⟨{}, retraces_start⟩

/-- What the tapes allow can happen, with their results. -/
theorem exists_tapeStory (hflags : ∀ a ∈ cl.memberList, (cl.flags a).leader = false)
    (ds : List (Deed Db)) (hds : (tapeMachine cl).Accepts (freshTapes cl) ds) :
    ∃ x n, TapeStory cl (ds.zip ((tapeMachine cl).run (freshTapes cl) ds).1) x n := by
  have hnil : TapeStory cl [] (freshTapes cl) (cl.start fun _ ↦ {}) := .nil
  obtain ⟨σ, x, n, h, rfl⟩ :=
    hnil.exists_of_accepts (refines_tapeMachine hflags) ⟨{}, retraces_start⟩ hds
  rw [List.nil_append] at h
  refine ⟨x, n, ?_⟩
  rw [(run_of_tapeStory hflags h).2, List.zip_map']
  exact (List.map_id σ).symm ▸ h

/-- **Clients see the tapes**, while nodes start again, the leader among them: all answers are those
of the tapes, the leader stores the values before the heads, all nodes that have not started again
store the last ones, and what the tapes allow can happen next. -/
theorem replayed (hflags : ∀ a ∈ cl.memberList, (cl.flags a).leader = false)
    (h : TapeStory cl σ x n) :
    (tapeMachine cl).run (freshTapes cl) (σ.map (·.1)) = (σ.map (·.2), x) ∧
    (∀ d ∈ cl.memberList, (n.nodes d).leader = x.leader.getD "") ∧
    (∀ key, key ≠ "leader" →
      (∀ y ∈ x.leader, (n.nodes y).kvStore.lookup key = (x.tape key).current) ∧
      ∀ d ∈ x.whole, (n.nodes d).kvStore.lookup key = (x.tape key).values.getLast?) ∧
    ∀ d, (tapeMachine cl).allows x d →
      ∃ r n', TapeStory cl (σ ++ [(d, r)]) ((tapeMachine cl).next x d).2 n' := by
  obtain ⟨⟨R, hR⟩, hrun⟩ := run_of_tapeStory hflags h
  refine ⟨hrun, fun d hd ↦ ?_, fun key hkey ↦ ⟨fun y hy ↦ ?_, fun d hd ↦ ?_⟩, fun d hd ↦
    h.exists_next (refines_tapeMachine hflags) ⟨{}, retraces_start⟩ hd⟩
  · rw [(hR.nodes d hd).leader, hR.leader]
  · exact ((hR.led y hy).2 key hkey).2
  · rw [(hR.whole d hd).2]
    exact (hR.tape key hkey).store

/-- The leader of `trio` starts again after two sets of one key: nothing is found, then the first
value, then the second one, and then new ones. -/
theorem replayed_trio : ∃ σ x n, TapeStory trio σ x n ∧
    σ.map (·.1) = [.call "a:1" (.electLeader "leader" "a:1"), .call "b:1" (.set "k" "u"),
      .call "b:1" (.set "k" "v"), .start "a:1", .call "b:1" (.get "k"),
      .call "b:1" (.set "k" "w"), .call "b:1" (.get "k"), .call "b:1" (.set "k" "x"),
      .call "b:1" (.get "k"), .call "b:1" (.set "k" "y"), .call "b:1" (.get "k")] ∧
    σ.map (·.2) = [some {}, some {}, some {}, some {}, some (found none), some {},
      some (found (some "u")), some {}, some (found (some "v")), some {},
      some (found (some "y"))] := by
  have hflags : ∀ a ∈ trio.memberList, (trio.flags a).leader = false := fun _ _ ↦ rfl
  obtain ⟨x, n, h⟩ := exists_tapeStory hflags [.call "a:1" (.electLeader "leader" "a:1"),
    .call "b:1" (.set "k" "u"), .call "b:1" (.set "k" "v"), .start "a:1", .call "b:1" (.get "k"),
    .call "b:1" (.set "k" "w"), .call "b:1" (.get "k"), .call "b:1" (.set "k" "x"),
    .call "b:1" (.get "k"), .call "b:1" (.set "k" "y"), .call "b:1" (.get "k")] (by decide)
  have hrun := (replayed hflags h).1
  refine ⟨_, x, n, h, rfl, ?_⟩
  refine (congrArg Prod.fst hrun).symm.trans ?_
  decide

/-! ### What clients find -/

/-- The values of a key that were set and acknowledged. -/
def written (key : String) (σ : List (Deed Db × Option Reply)) : List String :=
  σ.filterMap fun
    | (.call _ (.set k v), some e) => if k = key ∧ e.status.Ok then some v else none
    | _ => none

/-- The node that was elected last. -/
def lastElected (σ : List (Deed Db × Option Reply)) : Option String :=
  σ.foldl (fun y e ↦ match e.1 with
    | .call a (.electLeader _ _) => some a
    | _ => y) none

/-- No node starts, and none is elected. -/
def Quiet : Deed Db → Prop
  | .start _ | .call _ (.electLeader _ _) => False
  | _ => True

theorem written_append (key : String) (σ τ : List (Deed Db × Option Reply)) :
    written key (σ ++ τ) = written key σ ++ written key τ := List.filterMap_append

theorem lastElected_of_quiet {d : Deed Db} (hd : Quiet d) (σ : List (Deed Db × Option Reply))
    (r : Option Reply) : lastElected (σ ++ [(d, r)]) = lastElected σ := by
  rw [lastElected, List.foldl_concat]
  match d, hd with
  | .stop _, _ | .call _ (.get _), _ | .call _ (.set _ _), _ | .call _ (.attemptConsensus _), _
  | .call _ .coordinate, _ => rfl

variable (cl) in
/-- What is done to the tapes while no node starts and none is elected. -/
theorem next_tape {d : Deed Db} (hd : Quiet d) (x : TapeState) :
    ((tapeMachine cl).next x d).2.leader = x.leader ∧ ∀ key,
      ((tapeMachine cl).next x d).2.tape key =
        (written key [(d, ((tapeMachine cl).next x d).1)]).foldl Tape.write (x.tape key) := by
  match d, hd with
  | .stop _, _ | .call _ (.get _), _ | .call _ (.attemptConsensus _), _ | .call _ .coordinate, _ =>
    exact ⟨rfl, fun _ ↦ rfl⟩
  | .call a (.set k v), _ =>
    show (x.call a (.set k v)).2.leader = x.leader ∧ ∀ key, (x.call a (.set k v)).2.tape key =
      (written key [(.call a (.set k v), some (x.call a (.set k v)).1)]).foldl Tape.write _
    rw [TapeState.call]
    split
    · have hrefused : ∀ key, written key [(.call a (.set k v), some noLeader)] = [] := fun key ↦
        List.filterMap_cons_none (if_neg fun hc ↦ Status.not_ok_aborted _ hc.2)
      refine ⟨rfl, fun key ↦ ?_⟩
      rw [hrefused]
      rfl
    · refine ⟨rfl, fun key ↦ ?_⟩
      by_cases hkey : k = key
      · subst hkey
        simp [written]
      · simp [written, hkey, Function.update_of_ne (Ne.symm hkey)]

/-- **While no node starts and none is elected**, what is set is written on the tapes. -/
theorem tape_of_quiet {x₀ : TapeState} (hσ : ∀ e ∈ σ, Quiet e.1)
    (hrun : ((tapeMachine cl).run x₀ (σ.map (·.1))).1 = σ.map (·.2)) :
    ((tapeMachine cl).run x₀ (σ.map (·.1))).2.leader = x₀.leader ∧ ∀ key,
      ((tapeMachine cl).run x₀ (σ.map (·.1))).2.tape key =
        (written key σ).foldl Tape.write (x₀.tape key) := by
  revert hσ
  refine (tapeMachine cl).run_induction (P := fun σ x ↦ (∀ e ∈ σ, Quiet e.1) →
    x.leader = x₀.leader ∧ ∀ key, x.tape key = (written key σ).foldl Tape.write (x₀.tape key))
    (fun _ ↦ ⟨rfl, fun _ ↦ rfl⟩) (fun σ x d ih hσ ↦ ?_) hrun
  obtain ⟨hleader, htapes⟩ := ih fun e he ↦ hσ e (List.mem_append_left _ he)
  obtain ⟨hleader', htapes'⟩ := next_tape cl (hσ _ List.mem_concat_self) x
  refine ⟨hleader'.trans hleader, fun key ↦ ?_⟩
  rw [htapes', htapes, written_append, List.foldl_append]

/-- **Before any node starts again**, what was set is on the tapes, with the heads at their ends. -/
theorem tape_of_noStart (hσ : ∀ e ∈ σ, ∀ a, e.1 ≠ .start a)
    (hrun : ((tapeMachine cl).run (freshTapes cl) (σ.map (·.1))).1 = σ.map (·.2)) :
    ((tapeMachine cl).run (freshTapes cl) (σ.map (·.1))).2.leader = lastElected σ ∧ ∀ key,
      ((tapeMachine cl).run (freshTapes cl) (σ.map (·.1))).2.tape key =
        { past := written key σ } := by
  revert hσ
  refine (tapeMachine cl).run_induction (P := fun σ x ↦ (∀ e ∈ σ, ∀ a, e.1 ≠ .start a) →
    x.leader = lastElected σ ∧ ∀ key, x.tape key = { past := written key σ })
    (fun _ ↦ ⟨rfl, fun _ ↦ rfl⟩) (fun σ x d ih hσ ↦ ?_) hrun
  obtain ⟨hleader, htapes⟩ := ih fun e he ↦ hσ e (List.mem_append_left _ he)
  by_cases hd : Quiet d
  · obtain ⟨hleader', htapes'⟩ := next_tape cl hd x
    refine ⟨by rw [hleader', lastElected_of_quiet hd, hleader], fun key ↦ ?_⟩
    rw [htapes', htapes, written_append]
    exact Tape.foldl_write_of_nil rfl _
  match d with
  | .start a => exact absurd rfl (hσ _ List.mem_concat_self a)
  | .call a (.electLeader _ _) =>
    refine ⟨by rw [lastElected, List.foldl_concat]; rfl, fun key ↦ ?_⟩
    show (x.tape key).wind = _
    rw [htapes, Tape.wind, written_append]
    rfl
  | .stop _ | .call _ (.set _ _) | .call _ (.get _) | .call _ (.attemptConsensus _)
  | .call _ .coordinate => exact absurd trivial hd

/-- ... and acknowledged, if there is a leader. -/
theorem acknowledged_of_quiet {x₀ : TapeState} (hy : x₀.leader = some y)
    (hσ : ∀ e ∈ σ, Quiet e.1)
    (hrun : ((tapeMachine cl).run x₀ (σ.map (·.1))).1 = σ.map (·.2)) {b : String}
    {e : Option Reply} (he : (.call b (.set key value), e) ∈ σ) : e = some {} := by
  obtain ⟨σ₁, σ₂, rfl⟩ := List.append_of_mem he
  have hleader := (tape_of_quiet (fun e he ↦ hσ e (List.mem_append_left _ he))
    ((tapeMachine cl).results_append.1 hrun).1).1
  rw [← (tapeMachine cl).next_of_run hrun]
  show some (TapeState.call _ b (.set key value)).1 = some {}
  rw [TapeState.call, if_neg fun hnone ↦ ?_]
  rw [hleader, hy] at hnone
  exact Option.some_ne_none y hnone

section Rewound

variable {σ₁ σ₂ : List (Deed Db × Option Reply)} {r : Option Reply}

/-- The tapes after the leader has started again. -/
theorem tape_of_restart (hflags : ∀ a ∈ cl.memberList, (cl.flags a).leader = false)
    (h : TapeStory cl (σ₁ ++ (.start y, r) :: σ₂) x n) (h₁ : ∀ e ∈ σ₁, ∀ a, e.1 ≠ .start a)
    (hy : lastElected σ₁ = some y) (h₂ : ∀ e ∈ σ₂, Quiet e.1) :
    x.leader = some y ∧ (∀ b key value e, (.call b (.set key value), e) ∈ σ₂ → e = some {}) ∧
      ∀ key, x.tape key =
        (written key σ₂).foldl Tape.write ({ past := written key σ₁ } : Tape String).rewind := by
  obtain ⟨-, hrun⟩ := run_of_tapeStory hflags h
  obtain ⟨hres₁, hres₂⟩ := (tapeMachine cl).results_append.1 (congrArg Prod.fst hrun)
  obtain ⟨hleader₁, htapes₁⟩ := tape_of_noStart h₁ hres₁
  obtain ⟨x₁, hx₁⟩ : ∃ x₁, x₁ = ((tapeMachine cl).run (freshTapes cl) (σ₁.map (·.1))).2 := ⟨_, rfl⟩
  rw [← hx₁] at hres₂ hleader₁ htapes₁
  -- the leader starts again
  have hleader₂ : x₁.leader = some y := hleader₁.trans hy
  have htapes₂ : ∀ key, (x₁.start y).tape key =
      ({ past := written key σ₁ } : Tape String).rewind := fun key ↦ by
    rw [TapeState.start, if_pos hleader₂, ← htapes₁]
  have hres₃ : ((tapeMachine cl).run (x₁.start y) (σ₂.map (·.1))).1 = σ₂.map (·.2) :=
    (List.cons.inj hres₂).2
  obtain ⟨hleader₃, htapes₃⟩ := tape_of_quiet h₂ hres₃
  have hx : x = ((tapeMachine cl).run (x₁.start y) (σ₂.map (·.1))).2 := by
    have hstate := congrArg Prod.snd hrun
    rw [List.map_append, Machine.run_append, ← hx₁] at hstate
    exact hstate.symm
  rw [hx]
  refine ⟨hleader₃.trans hleader₂, fun b key value e he ↦ ?_, fun key ↦ ?_⟩
  · have hleader₃ : (x₁.start y).leader = some y := hleader₂
    exact acknowledged_of_quiet hleader₃ h₂ hres₃ he
  · rw [htapes₃, htapes₂]

/-- **Old values come back** when the leader starts again. Whatever is set from then on is
acknowledged, but clients find the oldest of the values that were set before, then the next one, and
so on. None of them is lost: once another node is elected, all are found that were found before, and
those that were set when there was nothing more to come back. -/
theorem rewound (hflags : ∀ a ∈ cl.memberList, (cl.flags a).leader = false)
    (h : TapeStory cl (σ₁ ++ (.start y, r) :: σ₂) x n) (h₁ : ∀ e ∈ σ₁, ∀ a, e.1 ≠ .start a)
    (hy : lastElected σ₁ = some y) (h₂ : ∀ e ∈ σ₂, Quiet e.1) :
    (∀ b key value e, (.call b (.set key value), e) ∈ σ₂ → e = some {}) ∧
    (∀ b key e x' n',
      TapeStory cl (σ₁ ++ (.start y, r) :: (σ₂ ++ [(.call b (.get key), e)])) x' n' →
        e = some (found ((written key σ₁).take (written key σ₂).length ++
          (written key σ₂).drop (written key σ₁).length).getLast?)) ∧
    ∀ a b key e e' x' n',
      TapeStory cl (σ₁ ++ (.start y, r) :: (σ₂ ++
        [(.call a (.electLeader "leader" a), e), (.call b (.get key), e')])) x' n' →
        e' = some (found (written key σ₁ ++
          (written key σ₂).drop (written key σ₁).length).getLast?) := by
  obtain ⟨hleader, hacknowledged, htapes⟩ := tape_of_restart hflags h h₁ hy h₂
  have hx := congrArg Prod.snd (run_of_tapeStory hflags h).2
  have hvalues : ∀ key, ({ past := written key σ₁ } : Tape String).values = written key σ₁ :=
    fun _ ↦ List.append_nil _
  refine ⟨hacknowledged, fun b key e x' n' h' ↦ ?_, fun a b key e e' x' n' h' ↦ ?_⟩
  · rw [← List.cons_append, ← List.append_assoc] at h'
    have hget := (tapeMachine cl).next_of_run (congrArg Prod.fst (run_of_tapeStory hflags h').2)
    rw [hx] at hget
    rw [← hget, ← hvalues key, ← Tape.current_foldl_rewind, ← htapes]
    show some (TapeState.call x b (.get key)).1 = _
    rw [TapeState.call, if_neg fun hnone ↦ Option.some_ne_none y (hleader.symm.trans hnone)]
  · -- the node that is elected knows all rounds
    rw [← List.cons_append, ← List.append_assoc, List.append_cons] at h'
    have hget := (tapeMachine cl).next_of_run (congrArg Prod.fst (run_of_tapeStory hflags h').2)
    rw [List.map_append, List.map_singleton, Machine.run_append_one, hx] at hget
    rw [← hget, ← hvalues key, ← Tape.current_wind_foldl_rewind, ← htapes]
    rfl

/-- `a:1` is elected, and two values are set. -/
def firstSets : List (Deed Db × Option Reply) :=
  [(.call "a:1" (.electLeader "leader" "a:1"), some ({} : Reply)),
    (.call "b:1" (.set "k" "u"), some ({} : Reply)),
    (.call "b:1" (.set "k" "v"), some ({} : Reply))]

/-- Another one is set. -/
def thirdSet : List (Deed Db × Option Reply) := [(.call "c:1" (.set "k" "w"), some ({} : Reply))]

/-- `a:1` starts again before the third set, which brings back the first value, and an election
brings back the second one. -/
theorem rewound_trio : ∃ x n x' n' e e',
    TapeStory trio (firstSets ++ (.start "a:1", some ({} : Reply)) ::
      (thirdSet ++ [(.call "b:1" (.get "k"), e)])) x n ∧ e = some (found (some "u")) ∧
    TapeStory trio (firstSets ++ (.start "a:1", some ({} : Reply)) ::
      (thirdSet ++ [(.call "c:1" (.electLeader "leader" "c:1"), some ({} : Reply)),
        (.call "b:1" (.get "k"), e')])) x' n' ∧ e' = some (found (some "v")) := by
  have hflags : ∀ a ∈ trio.memberList, (trio.flags a).leader = false := fun _ _ ↦ rfl
  obtain ⟨ds, hds⟩ : ∃ ds : List (Deed Db), ds = (firstSets.map (·.1) ++ [.start "a:1"]) ++
      thirdSet.map (·.1) := ⟨_, rfl⟩
  obtain ⟨x, n, h⟩ := exists_tapeStory hflags ds (by rw [hds]; decide)
  obtain ⟨x₁, n₁, h₁⟩ := exists_tapeStory hflags (ds ++ [.call "b:1" (.get "k")])
    (by rw [hds]; decide)
  obtain ⟨x₂, n₂, h₂⟩ := exists_tapeStory hflags
    (ds ++ [.call "c:1" (.electLeader "leader" "c:1"), .call "b:1" (.get "k")])
    (by rw [hds]; decide)
  subst hds
  have hstory : TapeStory trio (firstSets ++ (.start "a:1", some ({} : Reply)) :: thirdSet) x n := h
  obtain ⟨-, hfirst, hlast⟩ := rewound hflags hstory (by simp [firstSets]) rfl
    (by simp [thirdSet, Quiet])
  exact ⟨x₁, n₁, x₂, n₂, _, _, h₁, hfirst "b:1" "k" _ x₁ n₁ h₁,
    h₂, hlast "c:1" "b:1" "k" _ _ x₂ n₂ h₂⟩

end Rewound

end ReplicatedDB
