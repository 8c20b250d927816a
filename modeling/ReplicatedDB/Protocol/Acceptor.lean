import ReplicatedDB.Protocol.Messages
import ReplicatedDB.Versioned.Cell

/-!
# What an acceptor makes of its messages

A node that only gets propose, accept and success requests, any number of them and in any
order. For each key it is a versioned cell (`cell_process`): every request mentions its round,
and a success request commits its value. So the rounds it applies never go backwards
(`rounds_nondecreasing`), and what it has learned in the end does not depend on the order of
the messages, nor on older ones that are repeated or missing (`learned_eq`).

It makes no promises: `propose` compares the proposal id with one that nobody stores, and
`accept` does not compare it at all. So a proposal that was answered with OK binds the
acceptor only as far as negative proposal ids go (`keepsPromises_iff`).
-/

namespace ReplicatedDB

open Versioned

/-- `INT_MAX`. -/
def intMax : ℤ := 2 ^ 31 - 1

/-- What a request is for. -/
inductive Stage where
  | propose
  | accept
  | success
deriving DecidableEq

/-- A request of one of the stages; its round is an `int`. -/
structure Message where
  stage : Stage
  request : Request
  le_round : intMin ≤ request.round := by decide
  round_le : request.round ≤ intMax := by decide

namespace Message

/-- The handler of the request: the status it answers, and the state it leaves. -/
def handle (m : Message) (s : Replica) : Status × Replica :=
  match m.stage with
  | .propose => ((propose false m.request s).1.1, (propose false m.request s).2)
  | .accept => ((accept false m.request s).1.1, (accept false m.request s).2)
  | .success => success false m.request s

/-- What the request does to the cell of a key. -/
def op? (key : String) (m : Message) : Option (Op ℤ (Option String)) :=
  if m.request.key = key then
    some (if m.stage = .success then .commit m.request.round (some m.request.value)
      else .mention m.request.round)
  else none

end Message

namespace Replica

/-- Handle some requests, one after the other. -/
def process (s : Replica) (ms : List Message) : Replica := ms.foldl (fun s m ↦ (m.handle s).2) s

/-- What success requests for the key write: the store, or the leader register. -/
def stored (s : Replica) (key : String) : Option String :=
  if key = "leader" then some s.leader else s.kvStore.lookup key

/-- The rounds logged for a key, and what is stored for it. -/
def cell (s : Replica) (key : String) : Cell ℤ (Option String) := ⟨(s.log key).keys, s.stored key⟩

/-- The success requests for the key that are answered with OK, oldest first. -/
def applied (s : Replica) (key : String) : List Message → List Request
  | [] => []
  | m :: ms =>
    if m.stage = .success ∧ m.request.key = key ∧ (m.handle s).1.Ok then
      m.request :: (m.handle s).2.applied key ms
    else (m.handle s).2.applied key ms

@[simp] theorem process_nil (s : Replica) : s.process [] = s := rfl

@[simp] theorem process_cons (s : Replica) (m : Message) (ms : List Message) :
    s.process (m :: ms) = (m.handle s).2.process ms := rfl

end Replica

/-! ### One request -/

section Handle

variable (m : Message) (s : Replica)

theorem mem_keys_handle {key : String} {round : ℤ} :
    round ∈ ((m.handle s).2.log key).keys ↔
      round ∈ (s.log key).keys ∨ m.request.key = key ∧ m.request.round = round := by
  obtain ⟨stage, q, -, -⟩ := m
  cases stage with
  | propose => exact (mem_keys_act (.propose q) s).trans (by simp [Act.slot?])
  | accept => exact (mem_keys_act (.accept q) s).trans (by simp [Act.slot?])
  | success => exact (mem_keys_act (.success q) s).trans (by simp [Act.slot?])

/-- A success request is answered with OK if it is current. -/
theorem handle_ok (hm : m.stage = .success) :
    (m.handle s).1.Ok ↔ Current m.request s := by
  rw [Message.handle, hm]
  simp only [success_answer _ _ m.le_round]
  split
  · rename_i hcur
    exact iff_of_true Status.ok_default hcur
  · rename_i hcur
    exact iff_of_false (Status.not_ok_aborted _) hcur

/-- **What is stored** changes only if the request is a success request, and current. -/
theorem stored_handle (key : String) :
    (m.handle s).2.stored key =
      if m.stage = .success ∧ m.request.key = key ∧ Current m.request s then
        some m.request.value
      else s.stored key := by
  rcases hstage : m.stage with _ | _ | _
  · simp [Message.handle, hstage, propose_state, Replica.stored]
  · simp [Message.handle, hstage, accept_state, Replica.stored]
  · rw [Message.handle, hstage]
    simp only [success_state _ _ m.le_round, Replica.stored, true_and]
    by_cases hcur : Current m.request s
    · by_cases hkey : m.request.key = key
      · subst hkey
        by_cases hleader : m.request.key = "leader" <;> simp [hcur, hleader]
      · by_cases hleader : key = "leader"
        · subst hleader
          simp [hkey]
        · by_cases hreq : m.request.key = "leader"
          · have hne : ¬ "leader" = key := fun h ↦ hleader h.symm
            simp [hleader, hreq, hne]
          · have hne : key ≠ m.request.key := fun h ↦ hkey h.symm
            simp [hcur, hkey, hleader, hreq, KVStore.lookup_setKV_of_ne _ _ hne]
    · simp [hcur]

/-- The key of the leader is never written to the store. -/
theorem lookup_leader_handle :
    (m.handle s).2.kvStore.lookup "leader" = s.kvStore.lookup "leader" := by
  rcases hstage : m.stage with _ | _ | _
  · simp [Message.handle, hstage, propose_state]
  · simp [Message.handle, hstage, accept_state]
  · rw [Message.handle, hstage]
    simp only [success_state _ _ m.le_round]
    split
    · rename_i h
      exact KVStore.lookup_setKV_of_ne _ _ h.2.symm
    · rfl

/-- **One request on one key** is an operation of a versioned cell. -/
theorem cell_handle (key : String) :
    (m.handle s).2.cell key = ((m.op? key).map (s.cell key).apply).getD (s.cell key) := by
  have hseen : ((m.handle s).2.log key).keys =
      if m.request.key = key then insert m.request.round (s.log key).keys
      else (s.log key).keys := by
    ext round
    rw [mem_keys_handle]
    split
    · rename_i hkey
      rw [Finset.mem_insert, or_comm]
      simp [hkey, eq_comm]
    · rename_i hkey
      simp [hkey]
  rw [Replica.cell, hseen, stored_handle, Message.op?]
  by_cases hkey : m.request.key = key
  · subst hkey
    by_cases hstage : m.stage = .success
    · simp only [hstage, if_true, true_and, Option.map_some, Option.getD_some]
      rfl
    · simp only [hstage, if_true, if_false, false_and, Option.map_some, Option.getD_some]
      rfl
  · simp only [hkey, if_false, false_and, and_false, Option.map_none, Option.getD_none]
    rfl

end Handle

/-! ### Any number of requests -/

section Process

variable (s : Replica) (ms : List Message)

/-- **A node is a versioned cell for each key.** -/
theorem cell_process (key : String) :
    (s.process ms).cell key = (s.cell key).run (ms.filterMap (Message.op? key)) := by
  induction ms generalizing s with
  | nil => rfl
  | cons m ms ih =>
    rw [Replica.process_cons, ih, cell_handle, List.filterMap_cons]
    cases m.op? key <;> rfl

/-- What is applied are the commits of the cell. -/
theorem map_applied (key : String) :
    (s.applied key ms).map (fun q ↦ (q.round, some q.value)) =
      (s.cell key).commits (ms.filterMap (Message.op? key)) := by
  induction ms generalizing s with
  | nil => rfl
  | cons m ms ih =>
    have hcell := cell_handle m s key
    have hrest := ih (m.handle s).2
    rw [Replica.applied, List.filterMap_cons]
    by_cases hkey : m.request.key = key
    · subst hkey
      by_cases hstage : m.stage = .success
      · have hop : m.op? m.request.key =
            some (.commit m.request.round (some m.request.value)) := by
          simp [Message.op?, hstage]
        rw [hop] at hcell ⊢
        simp only [Option.map_some, Option.getD_some] at hcell
        rw [hcell] at hrest
        simp only [hstage, true_and, handle_ok m s hstage, Cell.commits]
        by_cases hcur : Current m.request s
        · rw [if_pos hcur, if_pos (show (s.cell m.request.key).Latest m.request.round from hcur),
            List.map_cons, hrest]
        · rw [if_neg hcur,
            if_neg (show ¬ (s.cell m.request.key).Latest m.request.round from hcur), hrest]
      · have hop : m.op? m.request.key = some (.mention m.request.round) := by
          simp [Message.op?, hstage]
        rw [hop] at hcell ⊢
        simp only [Option.map_some, Option.getD_some] at hcell
        rw [hcell] at hrest
        rw [if_neg fun h ↦ hstage h.1, hrest]
        rfl
    · have hop : m.op? key = none := by simp [Message.op?, hkey]
      rw [hop] at hcell ⊢
      simp only [Option.map_none, Option.getD_none] at hcell
      rw [if_neg fun h ↦ hkey h.2.1, hrest, hcell]

theorem lookup_leader_process :
    (s.process ms).kvStore.lookup "leader" = s.kvStore.lookup "leader" := by
  induction ms generalizing s with
  | nil => rfl
  | cons m ms ih => rw [Replica.process_cons, ih, lookup_leader_handle]

/-- What is stored for a key was applied last. -/
theorem stored_process (key : String) :
    (s.process ms).stored key =
      ((s.applied key ms).getLast?.map fun q ↦ some q.value).getD (s.stored key) := by
  have hvalue := Cell.value_run (s.cell key) (ms.filterMap (Message.op? key))
  rw [← cell_process, ← map_applied, List.getLast?_map, Option.map_map] at hvalue
  exact hvalue

theorem applied_append (key : String) (ms' : List Message) :
    s.applied key (ms ++ ms') = s.applied key ms ++ (s.process ms).applied key ms' := by
  induction ms generalizing s with
  | nil => rfl
  | cons m ms ih =>
    rw [List.cons_append, Replica.applied, Replica.applied, ih, Replica.process_cons]
    split <;> rfl

/-- The rounds that are applied never decrease. -/
theorem applied_pairwise (key : String) :
    (s.applied key ms).Pairwise fun q q' ↦ q.round ≤ q'.round := by
  have h := Cell.commits_pairwise (s.cell key) (ms.filterMap (Message.op? key))
  rw [← map_applied, List.pairwise_map] at h
  exact h

end Process

/-- **Applied rounds never go backwards.** A success request is answered with OK, and writes
its value, exactly when no larger round of its key is logged; the rounds that write a key never
decrease; and what a key holds is never replaced by the value of a smaller round. -/
theorem rounds_nondecreasing (s : Replica) (ms : List Message) :
    (∀ pre m post, ms = pre ++ m :: post → m.stage = .success →
      ((m.handle (s.process pre)).1.Ok ↔
        ∀ r ∈ ((s.process pre).log m.request.key).keys, ¬ m.request.round < r) ∧
      ∀ key, (m.handle (s.process pre)).2.stored key =
        if m.request.key = key ∧ (m.handle (s.process pre)).1.Ok then some m.request.value
        else (s.process pre).stored key) ∧
    (∀ key, (s.applied key ms).Pairwise fun q q' ↦ q.round ≤ q'.round) ∧
    ∀ key pre post, ms = pre ++ post → ∀ q ∈ (s.applied key pre).getLast?,
      (s.process pre).stored key = some q.value ∧
      ∃ q' ∈ (s.applied key ms).getLast?, q.round ≤ q'.round ∧
        (s.process ms).stored key = some q'.value := by
  refine ⟨fun pre m post _ hm ↦ ⟨?_, fun key ↦ ?_⟩, applied_pairwise s ms, ?_⟩
  · rw [handle_ok _ _ hm]
    simp only [Current, not_lt]
  · rw [stored_handle]
    simp only [handle_ok _ _ hm, hm, true_and]
  · rintro key pre post rfl q hq
    have hstored : ∀ ms, ∀ q ∈ (s.applied key ms).getLast?,
        (s.process ms).stored key = some q.value := fun ms q hq ↦ by
      rw [stored_process, Option.mem_def.1 hq]
      rfl
    refine ⟨hstored pre q hq, ?_⟩
    have hpair := applied_pairwise s (pre ++ post) key
    rw [applied_append] at hpair
    rcases hlast : ((s.process pre).applied key post).getLast? with _ | q'
    · have hlast' : q ∈ (s.applied key (pre ++ post)).getLast? := by
        rw [applied_append, List.getLast?_append, hlast]
        exact hq
      exact ⟨q, hlast', le_rfl, hstored _ q hlast'⟩
    · have hlast' : q' ∈ (s.applied key (pre ++ post)).getLast? := by
        rw [applied_append, List.getLast?_append, hlast]
        rfl
      exact ⟨q', hlast', (List.pairwise_append.1 hpair).2.2 q (List.mem_of_getLast? hq) q'
        (List.mem_of_getLast? hlast), hstored _ q' hlast'⟩

/-! ### The order of messages -/

/-- The requests mention the key. -/
def Mentions (ms : List Message) (key : String) : Prop := ∃ m ∈ ms, m.request.key = key

/-- Success requests about one key and round carry one value. -/
def Agree (ms : List Message) : Prop :=
  ∀ m ∈ ms, ∀ m' ∈ ms, m.stage = .success → m'.stage = .success →
    m.request.key = m'.request.key → m.request.round = m'.request.round →
      m.request.value = m'.request.value

/-- A success request of the largest round that the requests mention for its key. -/
def IsTop (ms : List Message) (m : Message) : Prop :=
  m ∈ ms ∧ m.stage = .success ∧
    ∀ m' ∈ ms, m'.request.key = m.request.key → m'.request.round ≤ m.request.round

theorem op?_eq_some_iff {key : String} {m : Message} {op : Op ℤ (Option String)} :
    m.op? key = some op ↔ m.request.key = key ∧
      op = if m.stage = .success then .commit m.request.round (some m.request.value)
        else .mention m.request.round := by
  rw [Message.op?]
  split
  · rename_i hkey
    simp [hkey, eq_comm]
  · rename_i hkey
    simp [hkey]

/-- **The largest round is learned**, whatever else is received. -/
theorem stored_of_isTop {s : Replica} (hlog : s.paxLog = ∅) {ms : List Message} {m : Message}
    (htop : IsTop ms m) (hagree : Agree ms) :
    (s.process ms).stored m.request.key = some m.request.value := by
  have hvalue : ((s.process ms).cell m.request.key).value = some m.request.value := by
    rw [cell_process]
    refine Cell.value_of_max (v := m.request.round) ?_ ?_ ?_ ?_
    · exact List.mem_filterMap.2 ⟨m, htop.1, op?_eq_some_iff.2 ⟨rfl, by rw [if_pos htop.2.1]⟩⟩
    · intro u hu
      simp [Replica.cell, Replica.log, hlog] at hu
    · intro op hop
      obtain ⟨m', hm', hop⟩ := List.mem_filterMap.1 hop
      obtain ⟨hkey, rfl⟩ := op?_eq_some_iff.1 hop
      split <;> exact htop.2.2 m' hm' hkey
    · intro y hy
      obtain ⟨m', hm', hop⟩ := List.mem_filterMap.1 hy
      obtain ⟨hkey, hop⟩ := op?_eq_some_iff.1 hop
      split at hop
      · rename_i hstage
        obtain ⟨hround, rfl⟩ := Op.commit.inj hop
        exact congrArg some (hagree m' hm' m htop.1 hstage htop.2.1 hkey hround.symm)
      · cases hop
  exact hvalue

/-- A key that is not mentioned is not written. -/
theorem stored_of_not_mentions {s : Replica} {ms : List Message} {key : String}
    (h : ¬ Mentions ms key) : (s.process ms).stored key = s.stored key := by
  have hnil : ms.filterMap (Message.op? key) = [] := by
    refine List.filterMap_eq_nil_iff.2 fun m hm ↦ ?_
    rw [Message.op?, if_neg fun hkey ↦ h ⟨m, hm, hkey⟩]
  exact congrArg Cell.value ((cell_process s ms key).trans (by rw [hnil, Cell.run_nil]))

/-- **Delivery order does not matter.** Two replicas that start alike and get requests about the
same keys, with success requests of the same largest rounds among them, end with equal stores
and leader registers, which hold the values of the largest rounds. -/
theorem learned_eq {s s' : Replica} {ms ms' : List Message} (hkv : s.kvStore = s'.kvStore)
    (hleader : s.leader = s'.leader) (hlog : s.paxLog = ∅) (hlog' : s'.paxLog = ∅)
    (hkeys : ∀ key, Mentions ms key ↔ Mentions ms' key) (hagree : Agree (ms ++ ms'))
    (htop : ∀ key, Mentions ms key → ∃ m m', IsTop ms m ∧ IsTop ms' m' ∧
      m.request.key = key ∧ m'.request.key = key ∧ m.request.round = m'.request.round) :
    (s.process ms).kvStore = (s'.process ms').kvStore ∧
    (s.process ms).leader = (s'.process ms').leader ∧
    ∀ m, IsTop ms m → (s.process ms).stored m.request.key = some m.request.value := by
  have hagree₁ : Agree ms := fun m hm m' hm' ↦
    hagree m (List.mem_append_left _ hm) m' (List.mem_append_left _ hm')
  have hagree₂ : Agree ms' := fun m hm m' hm' ↦
    hagree m (List.mem_append_right _ hm) m' (List.mem_append_right _ hm')
  have hstored : ∀ key, (s.process ms).stored key = (s'.process ms').stored key := by
    intro key
    by_cases hmen : Mentions ms key
    · obtain ⟨m, m', hm, hm', rfl, hkey, hround⟩ := htop key hmen
      have h' := stored_of_isTop hlog' hm' hagree₂
      rw [hkey] at h'
      rw [stored_of_isTop hlog hm hagree₁, h', hagree m (List.mem_append_left _ hm.1) m'
        (List.mem_append_right _ hm'.1) hm.2.1 hm'.2.1 hkey.symm hround]
    · rw [stored_of_not_mentions hmen, stored_of_not_mentions (mt (hkeys key).2 hmen),
        Replica.stored, Replica.stored, hkv, hleader]
  refine ⟨Finmap.ext_lookup fun key ↦ ?_, ?_, fun m hm ↦ stored_of_isTop hlog hm hagree₁⟩
  · by_cases hkey : key = "leader"
    · rw [hkey, lookup_leader_process, lookup_leader_process, hkv]
    · have h := hstored key
      rwa [Replica.stored, if_neg hkey, Replica.stored, if_neg hkey] at h
  · exact Option.some.inj (hstored "leader")

/-- One replica misses round 0 and gets round 1 twice, the other one gets them the wrong way
round. -/
theorem learned_eq_swapped :
    (({} : Replica).process
      [⟨.success, { key := "k", value := "w", round := 1 }, by decide, by decide⟩,
        ⟨.propose, { key := "k", round := 1 }, by decide, by decide⟩,
        ⟨.success, { key := "k", value := "w", round := 1 }, by decide, by decide⟩]).kvStore =
    (({} : Replica).process
      [⟨.success, { key := "k", value := "w", round := 1 }, by decide, by decide⟩,
        ⟨.success, { key := "k", value := "v" }, by decide, by decide⟩]).kvStore := by
  refine (learned_eq rfl rfl rfl rfl (fun key ↦ ?_) ?_ fun key hkey ↦ ?_).1
  · simp [Mentions]
  · simp [Agree]
  · obtain rfl : "k" = key := by simpa [Mentions] using hkey
    refine ⟨⟨.success, { key := "k", value := "w", round := 1 }, by decide, by decide⟩,
      ⟨.success, { key := "k", value := "w", round := 1 }, by decide, by decide⟩, ?_, ?_, rfl,
      rfl, rfl⟩ <;> simp [IsTop]

/-! ### Promises -/

/-- **Promises are kept**: after a proposal was answered with OK, a proposal or an accept
request for the same key and round with a smaller id is refused and leaves the accepted value
alone. -/
def KeepsPromises (s : Replica) (ms : List Message) : Prop :=
  ∀ pre m mid m' post, ms = pre ++ m :: (mid ++ m' :: post) →
    m.stage = .propose → (m.handle (s.process pre)).1.Ok → m'.stage ≠ .success →
    m'.request.key = m.request.key → m'.request.round = m.request.round →
    m'.request.pserverId < m.request.pserverId →
      ¬ (m'.handle (s.process (pre ++ m :: mid))).1.Ok ∧
      (((m'.handle (s.process (pre ++ m :: mid))).2.log m'.request.key).entry
        m'.request.round).acceptedValue =
      (((s.process (pre ++ m :: mid)).log m'.request.key).entry m'.request.round).acceptedValue

/-- Whatever comes after a proposal with an id from 0 on, for the same key and round and with a
smaller id, is a proposal with a negative id. -/
def OnlyNegative (ms : List Message) : Prop :=
  ms.Pairwise fun m m' ↦ m.stage = .propose → 0 ≤ m.request.pserverId → m'.stage ≠ .success →
    m'.request.key = m.request.key → m'.request.round = m.request.round →
    m'.request.pserverId < m.request.pserverId → m'.stage = .propose ∧ m'.request.pserverId < 0

theorem pServerId_handle (m : Message) (s : Replica) (key : String) (round : ℤ) :
    (((m.handle s).2.log key).entry round).pServerId = ((s.log key).entry round).pServerId := by
  obtain ⟨stage, q, -, -⟩ := m
  cases stage with
  | propose => exact pServerId_act (.propose q) s key round
  | accept => exact pServerId_act (.accept q) s key round
  | success => exact pServerId_act (.success q) s key round

/-- No promise is ever stored. -/
theorem pServerId_process (s : Replica) (ms : List Message) (key : String) (round : ℤ) :
    (((s.process ms).log key).entry round).pServerId = ((s.log key).entry round).pServerId := by
  induction ms generalizing s with
  | nil => rfl
  | cons m ms ih => rw [Replica.process_cons, ih, pServerId_handle]

/-- A proposal is refused if a larger promise is stored. -/
theorem handle_propose_ok {m : Message} (hm : m.stage = .propose) (s : Replica) :
    (m.handle s).1.Ok ↔
      ((s.log m.request.key).entry m.request.round).pServerId ≤ m.request.pserverId := by
  rw [Message.handle, hm]
  simp only [propose_answer]
  split
  · rename_i hp
    exact iff_of_false (Status.not_ok_aborted _) (not_le.2 hp)
  · rename_i hp
    refine iff_of_true ?_ (not_lt.1 hp)
    split <;> exact Status.ok_default

/-- A proposal leaves every entry alone. -/
theorem entry_handle_propose {m : Message} (hm : m.stage = .propose) (s : Replica) (key : String)
    (round : ℤ) : ((m.handle s).2.log key).entry round = (s.log key).entry round := by
  rw [Message.handle, hm]
  rcases entry_act (.propose m.request) s key round with h | ⟨q, hq, -⟩
  · exact h
  · cases hq

theorem onlyNegative_iff {ms : List Message} : OnlyNegative ms ↔
    ∀ pre m mid m' post, ms = pre ++ m :: (mid ++ m' :: post) → m.stage = .propose →
      0 ≤ m.request.pserverId → m'.stage ≠ .success → m'.request.key = m.request.key →
      m'.request.round = m.request.round → m'.request.pserverId < m.request.pserverId →
        m'.stage = .propose ∧ m'.request.pserverId < 0 := by
  rw [OnlyNegative, List.pairwise_iff_forall_sublist]
  constructor
  · rintro h pre m mid m' post rfl
    refine h ((List.Sublist.cons_cons m ?_).trans (List.sublist_append_right _ _))
    exact (List.Sublist.cons_cons m' (List.nil_sublist post)).trans (List.sublist_append_right _ _)
  · intro h m m' hsub
    obtain ⟨r₁, r₂, rfl, hm, hm'⟩ := List.cons_sublist_iff.1 hsub
    obtain ⟨pre, mid₁, rfl⟩ := List.append_of_mem hm
    obtain ⟨mid₂, post, rfl⟩ := List.append_of_mem (List.singleton_sublist.1 hm')
    exact h pre m (mid₁ ++ mid₂) m' post (by simp)

/-- **When promises are kept**: as far as only negative proposal ids come too late. -/
theorem keepsPromises_iff (kvStore : KVStore) (leader : String) (ms : List Message) :
    KeepsPromises { kvStore := kvStore, leader := leader } ms ↔ OnlyNegative ms := by
  rw [onlyNegative_iff]
  -- nothing is promised, so a proposal is answered with OK unless its id is negative
  have hok : ∀ (m : Message) (pre : List Message), m.stage = .propose →
      ((m.handle (Replica.process { kvStore := kvStore, leader := leader } pre)).1.Ok ↔
        0 ≤ m.request.pserverId) := by
    intro m pre hm
    rw [handle_propose_ok hm, pServerId_process]
    rfl
  constructor
  · intro h pre m mid m' post heq hm hid hstage hkey hround hlt
    obtain ⟨hnot, -⟩ := h pre m mid m' post heq hm ((hok m pre hm).2 hid) hstage hkey hround hlt
    rcases hstage' : m'.stage with _ | _ | _
    · exact ⟨rfl, not_le.1 (mt (hok m' _ hstage').2 hnot)⟩
    · refine absurd ?_ hnot
      rw [Message.handle, hstage']
      exact Status.ok_default
    · exact absurd hstage' hstage
  · intro h pre m mid m' post heq hm hmok hstage hkey hround hlt
    obtain ⟨hm', hneg⟩ := h pre m mid m' post heq hm ((hok m pre hm).1 hmok) hstage hkey hround hlt
    exact ⟨mt (hok m' _ hm').1 (not_le.2 hneg), by rw [entry_handle_propose hm']⟩

/-- A proposal with id 2 is answered with OK, and an accept request with id 1 afterwards too. -/
theorem not_keepsPromises : ¬ KeepsPromises {}
    [⟨.propose, { key := "k", pserverId := 2 }, by decide, by decide⟩,
      ⟨.accept, { key := "k", value := "v", pserverId := 1 }, by decide, by decide⟩] := by
  intro h
  refine (h [] _ [] _ [] rfl rfl ?_ nofun rfl rfl (by decide)).1 ?_ <;> decide

end ReplicatedDB
