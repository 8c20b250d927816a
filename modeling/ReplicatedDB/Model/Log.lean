import Mathlib.Data.Finmap
import Mathlib.Data.Finset.Fold
import Mathlib.Data.List.Sort
import Mathlib.Data.String.Basic

/-!
# Logs and stores

The data of `app::Consensus` and `app::Database`: the map `pax_log` from keys to rounds to log
entries, with the overloads of `Set_Log` and `Get_Log`, and the map `kv_store` with `Get_KV`,
`Set_KV` and `Get_DB`. Both are finite maps, so that two of them are equal as soon as they
agree on every key.

`operator[]` of a C++ map inserts a default entry when the key is absent. `Set_Log` relies on
it and `Get_Log` suffers from it, so the log is also returned by the latter.

Rounds and proposal ids are `int`s in the code and integers here: a round is the number of
rounds the log holds for a key, and no log in memory reaches `2 ^ 31` of them.
-/

namespace ReplicatedDB

/-- `consensus_interface::Operation`. -/
inductive Operation where
  | get
  | set
  | delete
  | setLeader
  | notSet
deriving DecidableEq

/-- `consensus_interface::LogEntry`, with the defaults of its fields. -/
structure LogEntry where
  pServerId : ℤ := 0
  aServerId : ℤ := 0
  op : Operation := .get
  acceptedValue : String := ""
deriving DecidableEq

/-- The rounds logged for one key. -/
abbrev Log := Finmap fun _ : ℤ ↦ LogEntry

/-- `Consensus::pax_log`. -/
abbrev PaxLog := Finmap fun _ : String ↦ Log

/-- `Database::kv_store`. -/
abbrev KVStore := Finmap fun _ : String ↦ String

/-- `INT_MIN`. -/
def intMin : ℤ := -2 ^ 31

theorem keys_insert {α : Type*} {β : α → Type*} [DecidableEq α]
    (m : Finmap β) (a : α) (b : β a) : (m.insert a b).keys = insert a m.keys := by
  ext x
  simp [Finmap.mem_keys]

namespace Log

/-- The entry of a round, as `operator[]` reads it. -/
def entry (l : Log) (round : ℤ) : LogEntry := (l.lookup round).getD {}

/-- The number of rounds. -/
def size (l : Log) : ℤ := l.keys.card

/-- The largest round, by the loop of `success`. -/
def largestRoundSoFar (l : Log) : ℤ := l.keys.fold max intMin id

/-- The entry holds an accepted value. -/
def Accepted (l : Log) (round : ℤ) : Prop := 0 < (l.entry round).aServerId

instance (l : Log) (round : ℤ) : Decidable (l.Accepted round) :=
  inferInstanceAs (Decidable (_ < _))

@[simp] theorem entry_empty (round : ℤ) : entry ∅ round = {} := rfl

@[simp] theorem entry_insert_self (l : Log) (round : ℤ) (e : LogEntry) :
    entry (l.insert round e) round = e := by
  simp [entry]

theorem entry_insert_of_ne (l : Log) {round round' : ℤ} (e : LogEntry) (h : round' ≠ round) :
    entry (l.insert round e) round' = entry l round' := by
  simp [entry, Finmap.lookup_insert_of_ne _ h]

theorem entry_of_notMem {l : Log} {round : ℤ} (h : round ∉ l.keys) : l.entry round = {} := by
  rw [entry, Finmap.lookup_eq_none.2 (fun hmem ↦ h (Finmap.mem_keys.2 hmem))]
  rfl

/-- An accepted round is logged. -/
theorem mem_keys_of_accepted {l : Log} {round : ℤ} (h : l.Accepted round) :
    round ∈ l.keys := by
  by_contra hmem
  rw [Accepted, entry_of_notMem hmem] at h
  exact absurd h (by decide)

theorem lt_largestRoundSoFar_iff {l : Log} {round : ℤ} (hround : intMin ≤ round) :
    round < l.largestRoundSoFar ↔ ∃ r ∈ l.keys, round < r := by
  rw [largestRoundSoFar, Finset.lt_fold_max]
  constructor
  · rintro (h | h)
    · omega
    · exact h
  · exact .inr

end Log

namespace PaxLog

/-- The rounds of a key, as `operator[]` reads them. -/
def rounds (l : PaxLog) (key : String) : Log := (l.lookup key).getD ∅

/-- Change the entry of a round. -/
def modify (l : PaxLog) (key : String) (round : ℤ) (f : LogEntry → LogEntry) : PaxLog :=
  l.insert key ((l.rounds key).insert round (f ((l.rounds key).entry round)))

/-- `Set_Log(key, round)`: an acceptor receives a proposal. -/
def setLog (l : PaxLog) (key : String) (round : ℤ) : PaxLog := l.modify key round id

/-- `Set_Log(key, round, a_server, op, value)`: update the acceptance info. -/
def setLogAccept (l : PaxLog) (key : String) (round aServer : ℤ) (op : Operation)
    (value : String) : PaxLog :=
  l.modify key round fun e ↦ { e with aServerId := aServer, op := op, acceptedValue := value }

/-- `Get_Log(key)`. -/
def getLog (l : PaxLog) (key : String) : Log × PaxLog :=
  (l.rounds key, l.insert key (l.rounds key))

/-- `Get_Log(key, round)`. -/
def getLogEntry (l : PaxLog) (key : String) (round : ℤ) : LogEntry × PaxLog :=
  ((l.rounds key).entry round, l.setLog key round)

@[simp] theorem rounds_empty (key : String) : rounds ∅ key = ∅ := rfl

@[simp] theorem rounds_insert_self (l : PaxLog) (key : String) (m : Log) :
    rounds (l.insert key m) key = m := by
  simp [rounds]

theorem rounds_insert_of_ne (l : PaxLog) {key key' : String} (m : Log) (h : key' ≠ key) :
    rounds (l.insert key m) key' = rounds l key' := by
  simp [rounds, Finmap.lookup_insert_of_ne _ h]

@[simp] theorem rounds_modify_self (l : PaxLog) (key : String) (round : ℤ)
    (f : LogEntry → LogEntry) :
    rounds (l.modify key round f) key =
      (l.rounds key).insert round (f ((l.rounds key).entry round)) := by
  simp [modify]

theorem rounds_modify_of_ne (l : PaxLog) {key key' : String} (round : ℤ)
    (f : LogEntry → LogEntry) (h : key' ≠ key) :
    rounds (l.modify key round f) key' = rounds l key' :=
  rounds_insert_of_ne l _ h

/-- Two changes of one entry are one change. -/
theorem modify_modify (l : PaxLog) (key : String) (round : ℤ) (f g : LogEntry → LogEntry) :
    (l.modify key round f).modify key round g = l.modify key round (g ∘ f) := by
  simp [modify]

/-- A change adds its round to those of its key. -/
theorem keys_modify (l : PaxLog) (key key' : String) (round : ℤ) (f : LogEntry → LogEntry) :
    (rounds (l.modify key round f) key').keys =
      if key' = key then insert round (l.rounds key').keys else (l.rounds key').keys := by
  split
  · rename_i h
    subst h
    rw [rounds_modify_self, keys_insert]
  · rename_i h
    rw [rounds_modify_of_ne l round f h]

/-- A change leaves every other entry as it was. -/
theorem entry_modify (l : PaxLog) (key key' : String) (round round' : ℤ)
    (f : LogEntry → LogEntry) :
    (rounds (l.modify key round f) key').entry round' =
      if key' = key ∧ round' = round then f ((l.rounds key).entry round)
      else (l.rounds key').entry round' := by
  by_cases hkey : key' = key
  · subst hkey
    by_cases hround : round' = round
    · subst hround
      simp
    · simp [hround, Log.entry_insert_of_ne _ _ hround]
  · simp [hkey, rounds_modify_of_ne l round f hkey]

/-- A change of nothing. -/
theorem modify_eq_self {l : PaxLog} {key : String} {round : ℤ} {f : LogEntry → LogEntry}
    (hmem : round ∈ (l.rounds key).keys)
    (hf : f ((l.rounds key).entry round) = (l.rounds key).entry round) :
    l.modify key round f = l := by
  obtain ⟨e, he⟩ := Finmap.mem_iff.1 (Finmap.mem_keys.1 hmem)
  have hentry : (l.rounds key).entry round = e := by rw [Log.entry, he, Option.getD_some]
  obtain ⟨m, hm⟩ : ∃ m, l.lookup key = some m := by
    rcases h : l.lookup key with _ | m
    · rw [rounds, h] at hmem
      exact absurd hmem (Finset.notMem_empty _)
    · exact ⟨m, rfl⟩
  have hrounds : l.rounds key = m := by rw [rounds, hm, Option.getD_some]
  have hinsert : (l.rounds key).insert round e = m := by
    refine Finmap.ext_lookup fun round' ↦ ?_
    by_cases h : round' = round
    · rw [h, Finmap.lookup_insert, ← hrounds, he]
    · rw [Finmap.lookup_insert_of_ne _ h, hrounds]
  rw [modify, hf, hentry, hinsert]
  refine Finmap.ext_lookup fun key' ↦ ?_
  by_cases h : key' = key
  · rw [h, Finmap.lookup_insert, hm]
  · rw [Finmap.lookup_insert_of_ne _ h]

/-- When a change changes nothing: the round is logged, and its entry stays as it is. -/
theorem modify_eq_self_iff {l : PaxLog} {key : String} {round : ℤ} {f : LogEntry → LogEntry} :
    l.modify key round f = l ↔
      round ∈ (l.rounds key).keys ∧
        f ((l.rounds key).entry round) = (l.rounds key).entry round := by
  refine ⟨fun h ↦ ?_, fun ⟨hmem, hf⟩ ↦ modify_eq_self hmem hf⟩
  have hkeys := keys_modify l key key round f
  have hentry := entry_modify l key key round round f
  rw [h, if_pos rfl] at hkeys
  rw [h, if_pos ⟨rfl, rfl⟩] at hentry
  exact ⟨hkeys ▸ Finset.mem_insert_self _ _, hentry.symm⟩

end PaxLog

namespace KVStore

/-- `Database::Get_KV`: the value and 0, or the empty string and 1. -/
def getKV (kv : KVStore) (key : String) : String × ℤ :=
  match kv.lookup key with
  | none => ("", 1)
  | some value => (value, 0)

/-- `Database::Set_KV`. -/
def setKV (kv : KVStore) (key value : String) : KVStore := kv.insert key value

@[simp] theorem lookup_setKV_self (kv : KVStore) (key value : String) :
    (kv.setKV key value).lookup key = some value := Finmap.lookup_insert _

theorem lookup_setKV_of_ne (kv : KVStore) {key key' : String} (value : String)
    (h : key' ≠ key) : (kv.setKV key value).lookup key' = kv.lookup key' :=
  Finmap.lookup_insert_of_ne _ h

/-- A value that is stored already. -/
theorem setKV_eq_self {kv : KVStore} {key value : String} (h : kv.lookup key = some value) :
    kv.setKV key value = kv := by
  refine Finmap.ext_lookup fun key' ↦ ?_
  by_cases hkey : key' = key
  · rw [hkey, lookup_setKV_self, h]
  · exact lookup_setKV_of_ne kv value hkey

/-- The keys, in order. -/
def keyList (kv : KVStore) : List String :=
  Quot.liftOn kv.keys.val (List.insertionSort (· ≤ ·)) fun l₁ l₂ (h : l₁.Perm l₂) ↦
    (((List.perm_insertionSort _ l₁).trans h).trans
      (List.perm_insertionSort _ l₂).symm).eq_of_pairwise' (r := (· ≤ ·))
        (List.pairwise_insertionSort _ l₁) (List.pairwise_insertionSort _ l₂)

/-- The key-value pairs of the map a `get_db` answers. -/
def entries (kv : KVStore) : List (String × String) :=
  kv.keyList.map fun key ↦ (key, (kv.lookup key).getD "")

theorem mem_keyList {kv : KVStore} {key : String} : key ∈ kv.keyList ↔ key ∈ kv := by
  rw [← Finmap.mem_keys, ← Finset.mem_val, keyList]
  induction kv.keys.val using Quot.inductionOn with
  | h l => exact (List.perm_insertionSort _ l).mem_iff

theorem mem_entries {kv : KVStore} {key value : String} :
    (key, value) ∈ kv.entries ↔ kv.lookup key = some value := by
  rw [entries, List.mem_map]
  constructor
  · rintro ⟨key', hmem, heq⟩
    obtain ⟨rfl, rfl⟩ := Prod.mk.inj heq
    obtain ⟨v, hv⟩ := Finmap.mem_iff.1 (mem_keyList.1 hmem)
    rw [hv]
    rfl
  · intro h
    exact ⟨key, mem_keyList.2 (Finmap.mem_of_lookup_eq_some h), by rw [h]; rfl⟩

/-- No key is paired twice. -/
theorem nodup_entries (kv : KVStore) : (kv.entries.map Prod.fst).Nodup := by
  have hkeys : kv.keyList.Nodup := by
    rw [keyList]
    have hnodup := kv.keys.nodup
    revert hnodup
    induction kv.keys.val using Quot.inductionOn with
    | h l => exact fun hl ↦ (List.perm_insertionSort (· ≤ ·) l).nodup_iff.2 hl
  rw [entries, List.map_map]
  exact (List.map_id kv.keyList).symm ▸ hkeys

theorem getKV_eq_iff {kv : KVStore} {key value : String} :
    kv.getKV key = (value, 0) ↔ kv.lookup key = some value := by
  rw [getKV]
  split <;> simp_all

end KVStore

end ReplicatedDB
