import Mathlib.Data.Int.Interval
import ReplicatedDB.Protocol.Agreement

/-!
# How logs grow

A node that runs never truncates its logs, and the round of an attempt is the size of a log. So logs
and rounds grow with the attempts at a key, and no faster: whatever is lost or executed late, and
whichever nodes restart, every round that is logged or asked for is smaller than the number of
attempts at its key (`rounds_bounded`). An `int` holds all rounds of a key until there were `2 ^ 31`
attempts at it.
-/

namespace ReplicatedDB

open Rpc Rpc.Net

variable {cl : Cluster}

/-- The activation is an attempt at a key. -/
def AttemptAt (key : String) (p : Activation Db) : Prop := ∃ r ∈ p.task.request?, r.key = key

instance (key : String) (p : Activation Db) : Decidable (AttemptAt key p) :=
  inferInstanceAs (Decidable (∃ r ∈ p.task.request?, r.key = key))

/-- The attempts at a key. -/
def attemptsAt (s : Net (db cl)) (key : String) : Finset ℕ :=
  (Finset.range s.acts.length).filter fun j ↦ ∃ p ∈ s.acts[j]?, AttemptAt key p

/-- Those that have chosen their round. -/
def openers (s : Net (db cl)) (key : String) : Finset ℕ :=
  (Finset.range s.acts.length).filter fun j ↦ ∃ p ∈ s.acts[j]?, AttemptAt key p ∧ p.hist ≠ []

variable {C : Net (db cl) → Label Db → Prop} {nodes : String → Replica} {s s' : Net (db cl)}
  {l : Label Db} {j : ℕ} {p q : Activation Db} {key d : String} {r : Request} {round : ℤ}

theorem mem_attemptsAt : j ∈ attemptsAt s key ↔ ∃ p, s.acts[j]? = some p ∧ AttemptAt key p := by
  rw [attemptsAt, Finset.mem_filter, Finset.mem_range]
  exact and_iff_right_of_imp fun ⟨_, hp, _⟩ ↦ lt_length hp

theorem mem_openers :
    j ∈ openers s key ↔ ∃ p, s.acts[j]? = some p ∧ AttemptAt key p ∧ p.hist ≠ [] := by
  rw [openers, Finset.mem_filter, Finset.mem_range]
  exact and_iff_right_of_imp fun ⟨_, hp, _⟩ ↦ lt_length hp

theorem openers_subset_attemptsAt : openers s key ⊆ attemptsAt s key := fun _ hj ↦ by
  obtain ⟨p, hp, hat, -⟩ := mem_openers.1 hj
  exact mem_attemptsAt.2 ⟨p, hp, hat⟩

/-- A step keeps those that have chosen. -/
theorem openers_mono (hs : Step s l s') (key : String) : openers s key ⊆ openers s' key := by
  intro j hj
  obtain ⟨p, hp, hat, hne⟩ := mem_openers.1 hj
  obtain ⟨q, hq, -, htask, -, -, hhist, -⟩ := hs.keeps hp
  refine mem_openers.2 ⟨q, hq, by rwa [AttemptAt, htask], fun hnil ↦ hne ?_⟩
  rw [hnil] at hhist
  exact List.prefix_nil.1 hhist

theorem attemptAt_of_task (ht : p.task = .attemptConsensus r) : AttemptAt r.key p :=
  ⟨r, by rw [ht]; rfl, rfl⟩

/-- Every attempt has chosen a round below the number of those that have. -/
def RoundsBelow (s : Net (db cl)) (key : String) : Prop :=
  ∀ (j : ℕ) (p : Activation Db), s.acts[j]? = some p → AttemptAt key p → p.hist ≠ [] →
    roundOf p.hist < (openers s key).card

theorem RoundsBelow.proposed (h : Reach C (cl.start nodes) s) (hbelow : RoundsBelow s r.key)
    (hprop : Proposes s j r round) : 0 ≤ round ∧ round < (openers s r.key).card := by
  obtain ⟨p, d', hp, htask, x, hmem⟩ := id hprop
  obtain ⟨-, rfl⟩ := hprop.round rfl h hp
  exact ⟨roundOf_nonneg _, hbelow j p hp (attemptAt_of_task htask) (List.ne_nil_of_mem hmem)⟩

/-- If so, then all rounds that are logged are below it, -/
theorem RoundsBelow.logged (hlog : ∀ d, (nodes d).paxLog = ∅) (h : Reach C (cl.start nodes) s)
    (hbelow : RoundsBelow s key) (hround : round ∈ ((s.nodes d).log key).keys) :
    0 ≤ round ∧ round < (openers s key).card := by
  obtain ⟨j, r, hprop, rfl⟩ := proposes_of_logged rfl rfl hlog h hround
  exact hbelow.proposed h hprop

/-- and so is the size of each log. -/
theorem RoundsBelow.size (hlog : ∀ d, (nodes d).paxLog = ∅) (h : Reach C (cl.start nodes) s)
    (hbelow : RoundsBelow s key) (d : String) :
    Log.size ((s.nodes d).log key) ≤ (openers s key).card := by
  have hsub : ((s.nodes d).log key).keys ⊆ Finset.Ico 0 ((openers s key).card : ℤ) :=
    fun round hround ↦ Finset.mem_Ico.2 (hbelow.logged hlog h hround)
  have hcard := Finset.card_le_card hsub
  rw [Int.card_Ico, sub_zero, Int.toNat_natCast] at hcard
  exact Int.ofNat_le.2 hcard

/-- The first call of an attempt reads the log of its key. -/
theorem first_call (h : Reach C (cl.start nodes) s) (hp : s.acts[j]? = some p)
    (hat : AttemptAt key p) (hnil : p.hist = []) {c : Call Db} {k : c.Ret → Program Reply}
    (hc : p.prog = .call c k) : c = .act none (.getLog key) := by
  obtain ⟨r, hr, rfl⟩ := hat
  have htask := request?_eq_some_iff.1 hr
  have hemit := ((contract cl).lawful rfl h j p hp).emits hc
  obtain ⟨dest, a, rfl, -⟩ := act_of_attempt rfl h hp htask hc
  rw [htask, hnil] at hemit
  cases dest with
  | none =>
    cases a with
    | getLog k' =>
      obtain ⟨rfl, -⟩ := hemit
      rfl
    | _ => exact absurd hemit id
  | some d =>
    cases a with
    | ping => exact absurd rfl hemit.2.1
    | propose q => exact absurd rfl hemit.2.2.1
    | accept q =>
      obtain ⟨-, -, ⟨⟨d', x, hx⟩, -⟩, -⟩ := hemit
      cases hx
    | success q =>
      obtain ⟨-, ⟨⟨d', x, hx⟩, -⟩, -⟩ := hemit
      cases hx
    | _ => exact absurd hemit id

/-- **Every round is below the number of attempts**: an attempt takes the size of a log, whose
rounds are those of attempts that have chosen before it. -/
theorem roundsBelow (hlog : ∀ d, (nodes d).paxLog = ∅) (h : Reach C (cl.start nodes) s)
    (key : String) : RoundsBelow s key := by
  refine h.invariant (I := fun s ↦ RoundsBelow s key) (fun j p hp ↦ by cases hp) ?_
  intro s l s' hr _ ih _ hs j q hq hat hne
  have hmono := Int.ofNat_le.2 (Finset.card_le_card (openers_mono hs key))
  rcases hs.activation hq with hp | ⟨-, a, t, origin, rfl, -⟩ | ⟨p, hp, rfl, -⟩ |
    ⟨p, hp, rfl, -⟩ | ⟨p, c, k, x, hp, -, hc, rfl, hans⟩
  · exact (ih j q hp hat hne).trans_le hmono
  · exact absurd rfl hne
  · exact (ih j p hp hat hne).trans_le hmono
  · exact (ih j p hp hat hne).trans_le hmono
  by_cases hnil : p.hist = []
  case neg =>
    rw [Activation.resume_hist, roundOf_append hnil]
    exact (ih j p hp hat hnil).trans_le hmono
  -- it chooses its round now, and is one more that has
  obtain rfl := first_call hr hp hat hnil hc
  rcases hans.lost_or_executed hp hc with ⟨hdest, -⟩ | ⟨-, -, rfl⟩
  · cases hdest
  have hsize := ih.size hlog hr p.node
  have hnew : j ∉ openers s key := fun hj ↦ by
    obtain ⟨p', hp', -, hne'⟩ := mem_openers.1 hj
    obtain rfl := Option.some.inj (hp.symm.trans hp')
    exact hne' hnil
  have hmem : j ∈ openers s' key := mem_openers.2 ⟨_, hq, hat, hne⟩
  have hlt : (openers s key).card < (openers s' key).card :=
    Finset.card_lt_card (Finset.ssubset_iff_of_subset (openers_mono hs key) |>.2 ⟨j, hmem, hnew⟩)
  rw [Activation.resume_hist, hnil]
  exact hsize.trans_lt (Int.ofNat_lt.2 hlt)

/-- What an attempt asks for is below the number of those that have chosen a round. -/
theorem RoundsBelow.requested (h : Reach C (cl.start nodes) s) (hbelow : RoundsBelow s key)
    {a : Act} (hreq : s.Requested d a) (hslot : a.slot? = some (key, round)) :
    0 ≤ round ∧ round < (openers s key).card := by
  rcases hreq with ⟨j, p, dest, k, hp, hc, -⟩ | hlate
  · obtain ⟨r, d', htask, rfl, -, -, rfl, rfl⟩ := attempt_of_call rfl h hp hc hslot
    have hat := attemptAt_of_task htask
    refine ⟨roundOf_nonneg _, hbelow j p hp hat fun hnil ↦ ?_⟩
    cases first_call h hp hat hnil hc
  · obtain ⟨j, hcall⟩ := h.calledBy_of_late rfl _ hlate
    obtain ⟨r, hprop, rfl⟩ := proposes_of_calledBy rfl h hcall hslot
    exact hbelow.proposed h hprop

/-- **Rounds and logs grow with the attempts**: whatever is lost, executed late or restarted, all
rounds of a key that are logged at a node or asked for are below the number of attempts at the key,
and no log of the key has more entries than that. -/
theorem rounds_bounded (hlog : ∀ d, (nodes d).paxLog = ∅) (h : Reach C (cl.start nodes) s)
    (key : String) :
    (∀ d, ∀ round ∈ ((s.nodes d).log key).keys, 0 ≤ round ∧ round < (attemptsAt s key).card) ∧
    (∀ d, Log.size ((s.nodes d).log key) ≤ (attemptsAt s key).card) ∧
    ∀ d a round, s.Requested d a → a.slot? = some (key, round) →
      0 ≤ round ∧ round < (attemptsAt s key).card := by
  have hbelow := roundsBelow hlog h key
  have hle : ((openers s key).card : ℤ) ≤ (attemptsAt s key).card :=
    Int.ofNat_le.2 (Finset.card_le_card openers_subset_attemptsAt)
  refine ⟨fun d round hround ↦ ?_, fun d ↦ (hbelow.size hlog h d).trans hle,
    fun d a round hreq hslot ↦ ?_⟩
  · exact (hbelow.logged hlog h hround).imp_right fun hlt ↦ hlt.trans_le hle
  · exact (hbelow.requested h hreq hslot).imp_right fun hlt ↦ hlt.trans_le hle

/-- `a:1` and `b:1` attempt the same round, `a:1` starts again, and `b:1` attempts another one, with
its first accept request still in flight. -/
theorem rounds_bounded_trio : ∃ s, Reach (fun _ _ ↦ True) (trio.start fun _ ↦ {}) s ∧
    Log.size ((s.nodes "b:1").log "leader") = 2 ∧ (attemptsAt s "leader").card = 3 ∧
    (∀ d, Log.size ((s.nodes d).log "leader") ≤ 3) ∧
    ∀ d a round, s.Requested d a → a.slot? = some ("leader", round) → 0 ≤ round ∧ round < 3 := by
  obtain ⟨s, hs, hsize, hcard⟩ : ∃ s, Reach (fun _ _ ↦ True) (trio.start fun _ ↦ {}) s ∧
      Log.size ((s.nodes "b:1").log "leader") = 2 ∧ (attemptsAt s "leader").card = 3 :=
    Reach.exists_of_steps (by
      decide +kernel : ((trio.start fun _ ↦ {}).steps (fun _ _ ↦ True)
        (twoElections ++ calls 12 2 ++ .restart "a:1" ::
          .submit "b:1" (.electLeader "leader" "b:1") :: calls 1 5 ++ calls 7 6 ++
          [.step 6 .late])).any _ = true)
  obtain ⟨-, hlogs, hasked⟩ := rounds_bounded (fun _ ↦ rfl) hs "leader"
  rw [hcard] at hlogs hasked
  exact ⟨s, hs, hsize, hcard, hlogs, hasked⟩

end ReplicatedDB
