import Mathlib.Data.Int.ConditionallyCompleteOrder
import Mathlib.Data.Int.Interval
import ReplicatedDB.Protocol.OwnValue

/-!
# Fresh rounds

A proposer is to take a round that is larger than all it has seen, and it takes the number of rounds
in its log. These are the same as long as the log has no gaps (`Log.fresh_iff`), and a log gets a
gap when its node misses all messages of a round and gets one of a later round
(`not_freshRounds_trio`).

If no message of a round is executed at a node that has fewer rounds in its log, then the rounds are
fresh, and only then (`freshRounds_iff`).
-/

namespace ReplicatedDB

open Rpc Rpc.Net

variable {cl : Cluster}

/-! ### Logs -/

/-- The number of rounds is larger than all rounds of the log. -/
def Log.Fresh (l : Log) : Prop := ∀ round ∈ l.keys, round < l.size

instance (l : Log) : Decidable l.Fresh := inferInstanceAs (Decidable (∀ _ ∈ _, _))

theorem Log.fresh_empty : Log.Fresh ∅ := by simp [Log.Fresh]

/-- **No gaps**: the next round is fresh if the rounds are the first ones. -/
theorem Log.fresh_iff {l : Log} (hnonneg : ∀ round ∈ l.keys, 0 ≤ round) :
    l.Fresh ↔ l.keys = Finset.Ico 0 l.size := by
  constructor
  · intro h
    refine Finset.eq_of_subset_of_card_le (fun round hround ↦ ?_) ?_
    · exact Finset.mem_Ico.2 ⟨hnonneg round hround, h round hround⟩
    · rw [Int.card_Ico, sub_zero, Log.size, Int.toNat_natCast]
  · intro h round hround
    rw [h] at hround
    exact (Finset.mem_Ico.1 hround).2

/-- **One more round** keeps the next one fresh exactly if it leaves no gap. -/
theorem Log.fresh_insert_iff {l : Log} (h : l.Fresh) (round : ℤ) (e : LogEntry) :
    Log.Fresh (l.insert round e) ↔ round ≤ l.size := by
  have hkeys : (l.insert round e).keys = insert round l.keys := keys_insert l round e
  have hsize : Log.size (l.insert round e) ≤ l.size + 1 := by
    rw [Log.size, Log.size, hkeys]
    exact_mod_cast Finset.card_insert_le round l.keys
  have hmono : l.size ≤ Log.size (l.insert round e) := by
    rw [Log.size, Log.size, hkeys]
    exact_mod_cast Finset.card_le_card (Finset.subset_insert round l.keys)
  constructor
  · intro hfresh
    have hlt := hfresh round (hkeys ▸ Finset.mem_insert_self round l.keys)
    omega
  · intro hle round' hmem
    rw [hkeys] at hmem
    rcases Finset.mem_insert.1 hmem with rfl | hold
    · by_cases hin : round' ∈ l.keys
      · have hlt := h round' hin
        omega
      · have hcard : Log.size (l.insert round' e) = l.size + 1 := by
          rw [Log.size, Log.size, hkeys, Finset.card_insert_of_notMem hin]
          push_cast
          rfl
        omega
    · have hlt := h round' hold
      omega

/-! ### Steps and runs -/

/-- **Fresh rounds**: the round that an attempt at the node `d` would choose for the key is larger
than all that the node has logged for it. -/
def FreshRounds (s : Net (db cl)) : Prop := ∀ d key, ((s.nodes d).log key).Fresh

/-- **No gap**: if the message that is executed logs a round, then the log of its node has at least
as many rounds already. -/
def NoGap (s : Net (db cl)) (l : Label Db) : Prop :=
  ∀ m ∈ s.executed? l, ∀ slot ∈ m.2.slot?, slot.2 ≤ ((s.nodes m.1).log slot.1).size

instance (s : Net (db cl)) (l : Label Db) : Decidable (NoGap s l) :=
  inferInstanceAs (Decidable (∀ m ∈ s.executed? l, ∀ slot ∈ m.2.slot?, _))

/-- An action with a slot logs its round. -/
theorem log_act_of_slot {a : Act} {key : String} {round : ℤ} (h : a.slot? = some (key, round))
    (s : Replica) : ∃ e, (act a s).2.log key = (s.log key).insert round e := by
  cases a with
  | propose q | accept q | success q =>
    cases h
    rw [Replica.log, paxLog_act]
    exact ⟨_, PaxLog.rounds_modify_self _ _ _ _⟩
  | _ => cases h

theorem log_act_of_ne {a : Act} {key : String} (h : ∀ round, a.slot? ≠ some (key, round))
    (s : Replica) : (act a s).2.log key = s.log key := by
  cases a with
  | propose q | accept q | success q =>
    have hne : key ≠ q.key := by
      rintro rfl
      exact h q.round rfl
    rw [Replica.log, paxLog_act]
    exact PaxLog.rounds_modify_of_ne _ _ _ hne
  | _ => rfl

section Runs

variable {C : Net (db cl) → Label Db → Prop} {s s' : Net (db cl)} {l : Label Db}

/-- **A step keeps rounds fresh** exactly if it leaves no gap. -/
theorem freshRounds_step_iff (h : FreshRounds s) (hs : Step s l s') :
    FreshRounds s' ↔ NoGap s l := by
  constructor
  · rintro hfresh ⟨d, a⟩ hex ⟨key, round⟩ hslot
    obtain ⟨e, he⟩ := log_act_of_slot hslot (s.nodes d)
    have hlog := hfresh d key
    rw [replica_executed hs hex, he] at hlog
    exact (Log.fresh_insert_iff (h d key) round e).1 hlog
  · intro hgap d key
    rcases replica_step hs d with hnode | ⟨a, hex, hnode⟩ | ⟨-, hnode⟩
    · rw [hnode]
      exact h d key
    · rw [hnode]
      by_cases hslot : ∃ round, a.slot? = some (key, round)
      · obtain ⟨round, hslot⟩ := hslot
        obtain ⟨e, he⟩ := log_act_of_slot hslot (s.nodes d)
        rw [he]
        exact (Log.fresh_insert_iff (h d key) round e).2 (hgap (d, a) hex (key, round) hslot)
      · rw [log_act_of_ne (fun round hr ↦ hslot ⟨round, hr⟩)]
        exact h d key
    · rw [hnode]
      exact Log.fresh_empty

theorem freshRounds_start : FreshRounds (cl.start fun _ ↦ {}) := fun _ _ ↦ Log.fresh_empty

/-- Rounds are fresh all along a run that leaves no gaps. -/
theorem freshRounds_of_noGap (h : Reach (fun s l ↦ C s l ∧ NoGap s l) (cl.start fun _ ↦ {}) s) :
    FreshRounds s :=
  h.invariant (I := FreshRounds) freshRounds_start fun _ _ _ _ _ ih hl hs ↦
    (freshRounds_step_iff ih hs).2 hl.2

/-- No round is negative. -/
theorem nonneg_of_logged (h : Reach C (cl.start fun _ ↦ {}) s) (d key : String) :
    ∀ round ∈ ((s.nodes d).log key).keys, 0 ≤ round := by
  intro round hround
  obtain ⟨j, r, hprop, -⟩ := proposes_of_logged rfl rfl (fun _ ↦ rfl) h hround
  obtain ⟨p, e, hp, htask, x, hx⟩ := id hprop
  rw [(hprop.round rfl h hp).2]
  exact roundOf_nonneg _

/-- **When rounds are fresh.** The runs that leave no gaps are those in which rounds are fresh in
every state. There the log of a node has, for each key, the rounds from 0 up to its size. -/
theorem freshRounds_iff (C : Net (db cl) → Label Db → Prop) (s : Net (db cl)) :
    (Reach (fun s l ↦ C s l ∧ NoGap s l) (cl.start fun _ ↦ {}) s ↔
      Reach (fun s l ↦ C s l ∧ ∀ s' ∈ s.step l, FreshRounds s') (cl.start fun _ ↦ {}) s) ∧
    (Reach (fun s l ↦ C s l ∧ NoGap s l) (cl.start fun _ ↦ {}) s → FreshRounds s ∧
      ∀ d key, ((s.nodes d).log key).keys = Finset.Ico 0 ((s.nodes d).log key).size) := by
  refine ⟨⟨fun h ↦ ?_, fun h ↦ ?_⟩, fun h ↦ ?_⟩
  · refine (h.strengthen fun _ ↦ freshRounds_of_noGap).mono fun s l hl ↦ ⟨hl.1.1, fun s' hs' ↦ ?_⟩
    exact (freshRounds_step_iff hl.2 (.of_step hs')).2 hl.1.2
  · have hfresh : ∀ s, Reach (fun s l ↦ C s l ∧ ∀ s' ∈ s.step l, FreshRounds s')
        (cl.start fun _ ↦ {}) s → FreshRounds s := by
      intro s h
      induction h with
      | refl => exact freshRounds_start
      | tail _ hs _ =>
        obtain ⟨l, hl, hstep⟩ := hs
        exact hl.2 _ hstep
    induction h with
    | refl => exact .refl
    | tail h hs ih =>
      obtain ⟨l, hl, hstep⟩ := hs
      exact ih.tail ⟨l, ⟨hl.1, (freshRounds_step_iff (hfresh _ h) (.of_step hstep)).1
        (hl.2 _ hstep)⟩, hstep⟩
  · have hfresh := freshRounds_of_noGap h
    exact ⟨hfresh, fun d key ↦ (Log.fresh_iff (nonneg_of_logged h d key)).1 (hfresh d key)⟩

end Runs

/-- An election of which `c:1` gets nothing, and a second one. -/
def missedElection : List (Label Db) :=
  [.submit "a:1" (.electLeader "leader" "a:1")] ++ calls 1 0 ++ calls 3 1 ++
    [.step 1 .requestLost] ++ calls 6 1 ++ [.step 1 .requestLost] ++ calls 2 0 ++
  election "a:1" 2

/-- **A round that is not fresh**: `c:1` has missed round 0, has one round in its log, round 1, and
would choose it again. -/
theorem not_freshRounds_trio : ∃ s, Reach Sequential (trio.start fun _ ↦ {}) s ∧
    ((s.nodes "c:1").log "leader").keys = {1} ∧ ((s.nodes "c:1").log "leader").size = 1 ∧
    ¬ FreshRounds s := by
  obtain ⟨s, hs, hkeys⟩ : ∃ s, Reach Sequential (trio.start fun _ ↦ {}) s ∧
      ((s.nodes "c:1").log "leader").keys = {1} :=
    Reach.exists_of_steps (by
      decide +kernel : ((trio.start fun _ ↦ {}).steps Sequential missedElection).any _ = true)
  have hsize : ((s.nodes "c:1").log "leader").size = 1 := by
    rw [Log.size, hkeys]
    rfl
  refine ⟨s, hs, hkeys, hsize, fun hfresh ↦ ?_⟩
  have hlt := hfresh "c:1" "leader" 1 (hkeys ▸ Finset.mem_singleton_self 1)
  omega

end ReplicatedDB
