import ReplicatedDB.Protocol.Missed
import ReplicatedDB.Rpc.Record

/-!
# Leader completeness

A node that comes to regard itself as leader should have stored the sets that were acknowledged
before. But nothing in an election looks at the store of the candidate, and an attempt ignores the
failures of its success messages: a node that has missed one of them may be elected without the
value (`not_elected_complete_trio`).

Which nodes have missed a set is recorded by `track` in `Protocol.Missed`. What has missed nothing
holds the value that was acknowledged last (`Kept`). So if no node is elected that has missed a set
(`ElectsInformed`), every leader is complete (`elected_complete`).
-/

namespace ReplicatedDB

open Rpc Rpc.Net

variable {cl : Cluster}

/-! ### Acknowledged sets -/

/-- When the activation has returned OK, if it is an attempt on the key, and the value that it was
to set. -/
def ack? (key : String) (p : Activation Db) : Option (ℕ × String) :=
  match p.task.request?, p.prog.result?, p.stop with
  | some r, some rep, some t => if r.key = key ∧ rep.status.Ok then some (t, r.value) else none
  | _, _, _ => none

/-- The sets of the key whose attempt has returned OK: when, and their values. -/
def acks (s : Net (db cl)) (key : String) : List (ℕ × String) := s.acts.filterMap (ack? key)

/-- The value of the set of the key that was acknowledged last. -/
def LatestAcked (s : Net (db cl)) (key value : String) : Prop :=
  ∃ x ∈ acks s key, x.2 = value ∧ ∀ y ∈ acks s key, y.1 ≤ x.1

instance (s : Net (db cl)) (key value : String) : Decidable (LatestAcked s key value) :=
  inferInstanceAs (Decidable (∃ x ∈ acks s key, x.2 = value ∧ ∀ y ∈ acks s key, y.1 ≤ x.1))

/-- The node whose leader register is assigned its own address in the step: by `elect_leader`, by a
success message or by `coordinate`. -/
def elected? (s : Net (db cl)) (l : Label Db) : Option String :=
  match s.executed? l with
  | some (d, .writeLeader value) => if value = d then some d else none
  | some (d, .success q) =>
    if q.key = "leader" ∧ q.value = d ∧ Current q (s.nodes d) then some d else none
  | _ => none

/-- **A complete leader**: the store of the node holds the value of the set of the key that was
acknowledged last. -/
def CompleteFor (key : String) (s : Net (db cl)) (a : String) : Prop :=
  ∀ value, LatestAcked s key value → (s.nodes a).kvStore.lookup key = some value

/-- Sets of the key are handled one at a time: while one attempt on the key makes a call, no other
one is in progress. -/
def SetsOneByOne (key : String) (s : Net (db cl)) : Label Db → Prop
  | .step i _ => ∀ p ∈ s.acts[i]?, OnKey key p → ∀ j < s.acts.length, j ≠ i →
      ∀ q ∈ s.acts[j]?, OnKey key q → q.Done ∨ q.hist = []
  | _ => True

instance (key : String) (s : Net (db cl)) : DecidablePred (SetsOneByOne key s)
  | .step i _ => inferInstanceAs (Decidable (∀ p ∈ s.acts[i]?, OnKey key p →
      ∀ j < s.acts.length, j ≠ i → ∀ q ∈ s.acts[j]?, OnKey key q → q.Done ∨ q.hist = []))
  | .submit _ _ | .deliver _ | .restart _ => inferInstanceAs (Decidable True)

/-- **No node is elected that has missed a set** of the key, or that was sent one that is still in
progress. -/
def ElectsInformed (key : String) (s : Net (db cl)) (g : Holder → Bool) (l : Label Db) : Prop :=
  SetsOneByOne key s l ∧ ∀ a ∈ elected? s l, g (.store a) = false ∧ ¬ Informed key s a

instance (key : String) (s : Net (db cl)) (g : Holder → Bool) (l : Label Db) :
    Decidable (ElectsInformed key s g l) :=
  inferInstanceAs (Decidable (_ ∧ _))

section Runs

variable {C : Net (db cl) → Label Db → Prop} {key value : String} {s s' : Net (db cl)}
  {l : Label Db} {g : Holder → Bool}

/-! ### What a step acknowledges -/

theorem ack?_eq_some_iff {p : Activation Db} {x : ℕ × String} : ack? key p = some x ↔
    ∃ r rep, p.task = .attemptConsensus r ∧ p.Returned rep ∧ p.stop = some x.1 ∧ r.key = key ∧
      rep.status.Ok ∧ r.value = x.2 := by
  constructor
  · intro h
    rw [ack?] at h
    split at h
    · rename_i r rep t htask hret hstop
      obtain ⟨⟨hkey, hok⟩, heq⟩ := Option.ite_none_right_eq_some.1 h
      obtain rfl := Option.some.inj heq
      exact ⟨r, rep, request?_eq_some_iff.1 htask, Prog.result?_eq_some_iff.1 hret, hstop, hkey,
        hok, rfl⟩
    · cases h
  · rintro ⟨r, rep, htask, hret, hstop, hkey, hok, hvalue⟩
    rw [ack?, request?_eq_some_iff.2 htask, Prog.result?_eq_some_iff.2 hret, hstop]
    exact (if_pos ⟨hkey, hok⟩).trans (congrArg some (Prod.ext rfl hvalue))

/-- Acknowledged sets stay acknowledged. -/
theorem acks_mono (hs : Step s l s') {x : ℕ × String} (hx : x ∈ acks s key) : x ∈ acks s' key := by
  obtain ⟨j, p, hp, hx⟩ := mem_filterMap_acts.1 hx
  obtain ⟨r, rep, htask, hret, hstop, hack⟩ := ack?_eq_some_iff.1 hx
  obtain ⟨p', hp', -, htask', -, -, -, hkeep⟩ := hs.keeps hp
  obtain ⟨hret', -, hstop'⟩ := hkeep rep hret
  exact mem_filterMap_acts.2 ⟨j, p', hp', ack?_eq_some_iff.2
    ⟨r, rep, htask'.trans htask, hret', hstop'.trans hstop, hack⟩⟩

/-- **What a step acknowledges**: the set whose attempt makes its last call. -/
theorem new_ack (hs : Step s l s') {x : ℕ × String} (hx : x ∈ acks s' key) :
    x ∈ acks s key ∨ ∃ (i : ℕ) (o : Outcome) (p : Activation Db) (r : Request), l = .step i o ∧
      s.acts[i]? = some p ∧ ¬ p.Done ∧ p.task = .attemptConsensus r ∧ r.key = key ∧
      (∃ q rep, s'.acts[i]? = some q ∧ q.Returned rep ∧ rep.status.Ok) ∧
      x = (s.clock, r.value) := by
  obtain ⟨j, q, hq, hx⟩ := mem_filterMap_acts.1 hx
  obtain ⟨r, rep, htask, hret, hstop, hkey, hok, hvalue⟩ := ack?_eq_some_iff.1 hx
  have hold : ∀ p, s.acts[j]? = some p → p.task = q.task → p.prog = q.prog → p.stop = q.stop →
      x ∈ acks s key := by
    intro p hp htask' hprog hstop'
    exact mem_filterMap_acts.2 ⟨j, p, hp, ack?_eq_some_iff.2 ⟨r, rep, htask'.trans htask,
      hprog.trans hret, hstop'.trans hstop, hkey, hok, hvalue⟩⟩
  rcases hs.activation hq with hq | ⟨-, a, t, origin, rfl, -⟩ | ⟨p, hp, rfl, -⟩ |
    ⟨p, hp, rfl, -⟩ | ⟨p, c, k, y, hp, halive, hc, rfl, hans⟩
  · exact .inl (hold q hq rfl rfl rfl)
  · cases hstop
  · exact .inl (hold p hp rfl rfl rfl)
  · exact .inl (hold p hp rfl rfl rfl)
  · obtain ⟨o, rfl⟩ := hans.label
    obtain ⟨-, -, htime⟩ := Option.map_eq_some_iff.1 hstop
    exact .inr ⟨j, o, p, r, rfl, hp, Activation.not_done halive hc, htask, hkey,
      ⟨_, rep, hq, hret, hok⟩, Prod.ext htime.symm hvalue.symm⟩

/-- Sets are acknowledged in the past. -/
theorem lt_clock_of_acks (h : Reach C (cl.start fun _ ↦ {}) s) :
    ∀ x ∈ acks s key, x.1 < s.clock := by
  refine h.invariant (I := fun s ↦ ∀ x ∈ acks s key, x.1 < s.clock) nofun ?_
  intro s l s' _ _ ih _ hs x hx
  rw [hs.clock]
  rcases new_ack hs hx with hx | ⟨i, o, p, r, -, -, -, -, -, -, rfl⟩
  · exact Nat.lt_succ_of_lt (ih x hx)
  · exact Nat.lt_succ_self s.clock

/-- **The last acknowledged set** is that of an attempt that makes its last call, if there is one.
-/
theorem latestAcked_step (h : Reach C (cl.start fun _ ↦ {}) s) (hs : Step s l s')
    (hlatest : LatestAcked s' key value) :
    (∀ x ∈ acks s' key, x ∈ acks s key) ∧ LatestAcked s key value ∨
    ¬ (∀ x ∈ acks s' key, x ∈ acks s key) ∧
      ∃ (i : ℕ) (o : Outcome) (p : Activation Db) (r : Request), l = .step i o ∧
        s.acts[i]? = some p ∧ ¬ p.Done ∧ p.task = .attemptConsensus r ∧ r.key = key ∧
        (∃ q rep, s'.acts[i]? = some q ∧ q.Returned rep ∧ rep.status.Ok) ∧ r.value = value := by
  obtain ⟨x, hx, hvalue, hle⟩ := hlatest
  by_cases hnew : ∀ x ∈ acks s' key, x ∈ acks s key
  · exact .inl ⟨hnew, x, hnew x hx, hvalue, fun y hy ↦ hle y (acks_mono hs hy)⟩
  · refine .inr ⟨hnew, ?_⟩
    obtain ⟨y, hy, hnot⟩ : ∃ y ∈ acks s' key, y ∉ acks s key := by simpa using hnew
    have hnow : y.1 = s.clock := by
      obtain ⟨_, _, _, _, _, _, _, _, _, _, heq⟩ := (new_ack hs hy).resolve_left hnot
      rw [heq]
    rcases new_ack hs hx with hx | ⟨i, o, p, r, hl, hp, hdone, htask, hkey, hret, rfl⟩
    · -- an older one is not the last
      have hlt := lt_clock_of_acks h x hx
      have hge := hle y hy
      omega
    · exact ⟨i, o, p, r, hl, hp, hdone, htask, hkey, hret, hvalue⟩

/-- An attempt that has returned has informed all members, if it is OK, and otherwise nobody. -/
theorem sent_of_returned_attempt (h : Reach C (cl.start fun _ ↦ {}) s) {j : ℕ} {p : Activation Db}
    (hp : s.acts[j]? = some p) {r : Request} (ht : p.task = .attemptConsensus r) {rep : Reply}
    (hret : p.Returned rep) :
    rep.status.Ok ∧ (∀ d ∈ cl.memberList, ∃ x, Sent p.hist d (.success x)) ∨
      ¬ rep.status.Ok ∧ ∀ d x, ¬ Sent p.hist d (.success x) := by
  have hreturns := ((contract cl).lawful rfl h j p hp).returns hret
  rw [ht] at hreturns
  obtain ⟨-, ⟨hok, qa, -, -, hall⟩ | ⟨rfl, hnone, -⟩⟩ := hreturns
  · exact .inl ⟨hok, fun d hd ↦ ⟨_, hall d hd⟩⟩
  · exact .inr ⟨Status.not_ok_aborted _, hnone⟩

/-- What was acknowledged was set. -/
theorem wasSet_of_latestAcked (h : Reach C (cl.start fun _ ↦ {}) s)
    (hlatest : LatestAcked s key value) : WasSet key s := by
  obtain ⟨x, hx, -⟩ := hlatest
  obtain ⟨j, p, hp, hx⟩ := mem_filterMap_acts.1 hx
  obtain ⟨r, rep, htask, hret, -, hkey, hok, -⟩ := ack?_eq_some_iff.1 hx
  obtain ⟨d, hd⟩ := List.exists_mem_of_ne_nil _ cl.ne_nil
  rcases sent_of_returned_attempt h hp htask hret with ⟨-, hall⟩ | ⟨hnot, -⟩
  · obtain ⟨q, y, hy⟩ := hall d hd
    exact ⟨p, List.mem_of_getElem? hp, ⟨r, request?_eq_some_iff.2 htask, hkey⟩, _, hy, rfl⟩
  · exact absurd hok hnot

/-! ### What the record says -/

/-- A store of a member that was sent nothing by a set that is still in progress. -/
def Holder.Settled (key : String) (s : Net (db cl)) : Holder → Prop
  | .store d => d ∈ cl.memberList ∧ ¬ Informed key s d
  | .copy _ => True

/-- **What has missed nothing** holds the value that was acknowledged last, or that of the set in
progress if it was sent that. -/
structure Kept (key : String) (s : Net (db cl)) (g : Holder → Bool) : Prop where
  latest : ∀ value, LatestAcked s key value → ∀ x : Holder, g x = false → x.Settled key s →
    x.Has s key value
  pending : ∀ (j : ℕ) (p : Activation Db) r, s.acts[j]? = some p → p.task = .attemptConsensus r →
    ∀ d, Informing key d p → g (.store d) = false → (Holder.store d).Has s key r.value

section Steps

/-- Whoever informs somebody on behalf of the key is the attempt in progress. -/
theorem SetsOneByOne.unique (h : Reach C (cl.start fun _ ↦ {}) s) {i j : ℕ} {o : Outcome}
    (hone : SetsOneByOne key s (.step i o)) {p p' : Activation Db} (hp : s.acts[i]? = some p)
    (hp' : s.acts[j]? = some p') {d : String} {q : Request} {k : Status → Program Reply}
    (hc : p.prog = .call (.act (some d) (.success q)) k) (hqkey : q.key = key)
    (hkey : OnKey key p') (hdone : ¬ p'.Done) (hne : p'.hist ≠ []) : j = i := by
  obtain ⟨r, -, htask, -, -, -, hr, -⟩ := attempt_of_call rfl h hp hc rfl
  by_contra hji
  rcases hone p hp ⟨r, request?_eq_some_iff.2 htask, hr.trans hqkey⟩ j (lt_length hp') hji p' hp'
    hkey with hd | hnil
  · exact hdone hd
  · exact hne hnil

variable (h : Reach C (cl.start fun _ ↦ {}) s) (h' : Reach C (cl.start fun _ ↦ {}) s')
  (hs : Step s l s')
include h hs

include h' in
/-- **An attempt that has informed a node** stays in progress until it is acknowledged, or cut off
by a restart. -/
theorem informing_step {j : ℕ} {p q : Activation Db} {r : Request} (hp : s.acts[j]? = some p)
    (hdone : ¬ p.Done) (htask : p.task = .attemptConsensus r) (hrkey : r.key = key)
    (hq : s'.acts[j]? = some q) {d : String} (hsent : ∃ x, Sent q.hist d (.success x))
    (hnone : ∀ x ∈ acks s' key, x ∈ acks s key) : Informing key d q ∨ l = .restart p.node := by
  rcases hs.activation hq with hq' | ⟨rfl, -⟩ | ⟨p', hp', rfl, -⟩ | ⟨p', hp', rfl, hl⟩ |
    ⟨p', c, k, y, hp', halive, hc, rfl, -⟩
  · obtain rfl := Option.some.inj (hp.symm.trans hq')
    exact .inl (informing_of_sent htask hrkey hdone hsent)
  · exact absurd (lt_length hp) (Nat.lt_irrefl _)
  · obtain rfl := Option.some.inj (hp.symm.trans hp')
    exact .inl (informing_of_sent htask hrkey hdone hsent)
  · obtain rfl := Option.some.inj (hp.symm.trans hp')
    exact .inr hl
  · obtain rfl := Option.some.inj (hp.symm.trans hp')
    rcases hresult : (k y).result? with _ | rep
    · -- it has not returned
      refine .inl (informing_of_sent htask hrkey ?_ hsent)
      rintro (hdead | hret)
      · exact absurd (halive.symm.trans hdead) (by decide)
      · rw [Activation.resume_prog, hresult] at hret
        cases hret
    · -- it has returned OK, which is a new acknowledgement
      have hret : k y = .ret rep := Prog.result?_eq_some_iff.1 hresult
      rcases sent_of_returned_attempt h' hq htask hret with ⟨hok, -⟩ | ⟨-, hnot⟩
      · have hack : (s.clock, r.value) ∈ acks s' key :=
          mem_filterMap_acts.2 ⟨j, _, hq, ack?_eq_some_iff.2 ⟨r, rep, htask, hret,
            by rw [Activation.resume_stop, hresult]; rfl, hrkey, hok, rfl⟩⟩
        exact absurd (lt_clock_of_acks h _ (hnone _ hack)) (Nat.lt_irrefl _)
      · obtain ⟨x, hx⟩ := hsent
        exact absurd hx (hnot d x)

variable (hkept : Kept key s g)
include hkept

include h' in
/-- **The last acknowledged set**: a store that has missed nothing holds its value, -/
theorem store_has_latest (hnone : ∀ x ∈ acks s' key, x ∈ acks s key)
    (hlatest : LatestAcked s key value) {d : String} (hx : track key s l s' g (.store d) = false)
    (hsettled : (Holder.store d).Settled key s') : (Holder.store d).Has s' key value := by
  obtain ⟨hd, hnot⟩ := hsettled
  rcases store_of_step h hs hx with ⟨i, o, p, q, k, rfl, hp, hc, hqkey, -⟩ |
    ⟨i, o, p, v, k, rfl, hp, hc, rfl, hcopy, -⟩ | ⟨hg, hcase⟩
  · -- the set that the node is sent is still in progress
    obtain ⟨r, -, htask, -, -, -, hr, -⟩ := attempt_of_call rfl h hp hc rfl
    obtain ⟨halive, y, hq⟩ := hs.resumed hp hc
    rcases informing_step h h' hs hp (Activation.not_done halive hc) htask (hr.trans hqkey) hq
      ⟨q, y, List.mem_append_right _ (List.mem_singleton_self _)⟩ hnone with hinf | hl
    · exact absurd ⟨_, List.mem_of_getElem? hq, hinf⟩ hnot
    · cases hl
  · -- a pair of a copy is set
    obtain ⟨-, L, kv, hL, hkv⟩ := setKV_of_lawful ((contract cl).lawful rfl h i p hp) hc
    have hvalue : kv.lookup key = some value :=
      hkept.latest value hlatest (.copy i) hcopy trivial p L kv hp hL
    obtain rfl := Option.some.inj (hkv.symm.trans hvalue)
    have hex := executed_of_local hs hp hc
    show (s'.nodes p.node).kvStore.lookup key = some v
    rw [replica_executed hs hex]
    exact KVStore.lookup_setKV_self _ _ _
  · have hset := wasSet_of_latestAcked h hlatest
    rcases hcase with ⟨-, hnset⟩ | ⟨htouched, -, hcut⟩
    · exact absurd hset hnset
    · refine (hkept.latest value hlatest (.store d) hg ⟨hd, ?_⟩).step h hs htouched
      rintro ⟨p, hp, hinf⟩
      -- it is still in progress, or cut off
      obtain ⟨j, hj⟩ := List.mem_iff_getElem?.1 hp
      obtain ⟨q, hq, hnode, -, -, -, hhist, -⟩ := hs.keeps hj
      obtain ⟨r, hr, hrkey⟩ := hinf.1
      obtain ⟨z, y, hy⟩ := sent_of_informing hinf
      rcases informing_step h h' hs hj hinf.2.1 (request?_eq_some_iff.1 hr) hrkey hq
        ⟨z, y, hhist.subset hy⟩ hnone with hstill | hl
      · exact hnot ⟨q, List.mem_of_getElem? hq, hstill⟩
      · exact hcut p hp hl hinf

/-- and so does a copy. -/
theorem copy_has_latest (hlatest : LatestAcked s key value) {i : ℕ}
    (hx : track key s l s' g (.copy i) = false) : (Holder.copy i).Has s' key value := by
  by_cases hl : ∃ j o, l = .step j o
  case neg =>
    have hg := copy_of_other (fun j o heq ↦ hl ⟨j, o, heq⟩) hx
    refine (hkept.latest value hlatest (.copy i) hg trivial).step h hs ?_
    rintro ⟨o, _, _, _, heq, -⟩
    exact hl ⟨i, o, heq⟩
  obtain ⟨j, o, rfl⟩ := hl
  obtain ⟨p, c, k, hp, -, hc, -⟩ := hs.moved
  obtain ⟨-, ⟨rfl, L, rfl, rfl, hg, hnot⟩ | ⟨hg, hnot⟩⟩ := copy_of_call hp hc hx
  · -- the store is copied as it is
    have hcoord := getDB_of_emits (((contract cl).lawful rfl h i p hp).emits hc)
    have hmember : L ∈ cl.memberList := by
      have hemit := ((contract cl).lawful rfl h i p hp).emits hc
      rw [hcoord] at hemit
      exact hemit.1
    have hhas := hkept.latest value hlatest (.store L) hg ⟨hmember, hnot⟩
    intro p' L' kv hp' hL
    obtain ⟨p₀, hp₀, -, -, hL | ⟨c, k', r, -, hc', heq, hans⟩⟩ := hs.event hp' hL
    all_goals obtain rfl := Option.some.inj (hp.symm.trans hp₀)
    · -- no other store was asked for
      rcases ((fetchContract cl).lawful rfl h i p hp).emits hc hcoord with hn | ⟨_, _, heq⟩
      · exact absurd hL (hn L' kv)
      · cases heq
    · obtain ⟨rfl, heq⟩ := Sigma.mk.inj heq
      obtain rfl := eq_of_heq heq
      obtain ⟨hcall, -⟩ := Prog.call.inj (hc.symm.trans hc')
      obtain ⟨heq, -⟩ := Call.act.inj hcall
      obtain rfl := Option.some.inj heq
      obtain ⟨o, hlabel, -, rfl⟩ := hans
      obtain ⟨-, rfl⟩ := Label.step.inj hlabel
      exact hhas
  · refine (hkept.latest value hlatest (.copy i) hg trivial).step h hs ?_
    rintro ⟨o', p', L, k', hl, hp', hc'⟩
    obtain ⟨rfl, -⟩ := Label.step.inj hl
    obtain rfl := Option.some.inj (hp.symm.trans hp')
    exact hnot rfl L (Prog.call.inj (hc.symm.trans hc')).1

variable (hkey : key ≠ "leader")
include hkey

/-- **The set in progress**: whoever was sent it and has missed nothing holds its value. -/
theorem has_pending (hone : SetsOneByOne key s l) {j : ℕ} {p q : Activation Db} {r : Request}
    (hp : s.acts[j]? = some p) (hdone : ¬ p.Done) (htask : p.task = .attemptConsensus r)
    (hrkey : r.key = key) (hq : s'.acts[j]? = some q) {d : String}
    (hsent : ∃ x, Sent q.hist d (.success x)) (hx : track key s l s' g (.store d) = false) :
    (Holder.store d).Has s' key r.value := by
  have honkey : OnKey key p := ⟨r, request?_eq_some_iff.2 htask, hrkey⟩
  have hsent := sent_step hs hp hq hsent
  rcases store_of_step h hs hx with ⟨i, o, p₁, x, k, rfl, hp₁, hc, hxkey, hexec, hcur, hown⟩ |
    ⟨i, o, p₁, v, k, rfl, hp₁, hc, -, -, hnot⟩ | ⟨hg, hcase⟩
  · -- the message arrives, and whoever sends it is the attempt
    obtain rfl : j = i := by
      rcases hsent with ⟨x', hx'⟩ | ⟨_, _, _, hl, -⟩
      · refine hone.unique h hp₁ hp hc hxkey honkey hdone fun hnil ↦ ?_
        obtain ⟨y, hy⟩ := hx'
        rw [hnil] at hy
        cases hy
      · exact (Label.step.inj hl).1.symm
    obtain rfl := Option.some.inj (hp.symm.trans hp₁)
    have hvalue : r.value = x.value := by simpa [sendsOwn, htask, Task.request?] using hown
    have hex : s.executed? (.step j o) = some (d, .success x) :=
      executed?_of_executed hp hc hexec
    have hround := (sound_of_requested rfl rfl h (hs.executed hex)).2
    show (s'.nodes d).kvStore.lookup key = some r.value
    rw [replica_executed hs hex, kvStore_success _ hround hcur (hxkey ▸ hkey), hvalue, ← hxkey,
      KVStore.lookup_setKV_self]
  · -- a copy that is set there is missed
    rcases hsent with hold | ⟨_, _, _, hl, hc'⟩
    · exact absurd ⟨p, List.mem_of_getElem? hp, informing_of_sent htask hrkey hdone hold⟩ hnot
    · obtain ⟨rfl, -⟩ := Label.step.inj hl
      obtain rfl := Option.some.inj (hp.symm.trans hp₁)
      cases (Prog.call.inj (hc.symm.trans hc')).1
  · have hold : ∃ x, Sent p.hist d (.success x) := by
      rcases hsent with hold | ⟨o, x, k, rfl, hc⟩
      · exact hold
      · rcases hcase with ⟨hl, -⟩ | ⟨-, hno, -⟩
        · cases hl
        · obtain ⟨r', -, htask', -, -, -, hr', -⟩ := attempt_of_call rfl h hp hc rfl
          obtain rfl := Task.attemptConsensus.inj (htask.symm.trans htask')
          exact absurd (hr'.symm.trans hrkey) (hno j o p x k rfl hp hc)
    have hinf := informing_of_sent htask hrkey hdone hold
    have hhas := hkept.pending j p r hp htask d hinf hg
    rcases hcase with ⟨-, hnot⟩ | ⟨hnot, -⟩
    · obtain ⟨-, -, e, he, m, hm, -⟩ := hinf
      exact absurd ⟨p, List.mem_of_getElem? hp, honkey, e, he, by rw [hm]; rfl⟩ hnot
    · exact hhas.step h hs hnot

include h' in
/-- **A step** keeps what the record says. -/
theorem Kept.step (hone : SetsOneByOne key s l) : Kept key s' (track key s l s' g) := by
  refine ⟨fun value hlatest x hx hsettled ↦ ?_, fun j q r hq htask d hinf hx ↦ ?_⟩
  · rcases latestAcked_step h hs hlatest with ⟨hnone, hlatest⟩ |
      ⟨-, i, o, p, r, rfl, hp, hdone, htask, hrkey, ⟨q, rep, hq, hret, hok⟩, rfl⟩
    · cases x with
      | store d => exact store_has_latest h h' hs hkept hnone hlatest hx hsettled
      | copy i => exact copy_has_latest h hs hkept hlatest hx
    · -- a set is acknowledged when all members were sent it
      obtain ⟨p', hp', -, htask', -⟩ := hs.keeps hp
      obtain rfl := Option.some.inj (hq.symm.trans hp')
      have hsent : ∀ d ∈ cl.memberList, ∃ x, Sent q.hist d (.success x) := by
        rcases sent_of_returned_attempt h' hq (htask'.trans htask) hret with ⟨-, hall⟩ | ⟨hnot, -⟩
        · exact hall
        · exact absurd hok hnot
      cases x with
      | store d =>
        exact has_pending h hs hkept hkey hone hp hdone htask hrkey hq (hsent d hsettled.1) hx
      | copy i' =>
        -- the last call of the attempt informs a member
        exfalso
        obtain ⟨p₁, c, k, hp₁, -, hc, -⟩ := hs.moved
        obtain rfl := Option.some.inj (hp.symm.trans hp₁)
        obtain ⟨d, hd⟩ := List.exists_mem_of_ne_nil _ cl.ne_nil
        obtain ⟨d', x, rfl⟩ : ∃ d' x, c = .act (some d') (.success x) := by
          rcases sent_step hs hp hq (hsent d hd) with hold | ⟨_, x, _, -, hc'⟩
          · exact success_of_sent ((contract cl).lawful rfl h i p hp) htask hold hc
          · exact ⟨d, x, (Prog.call.inj (hc.symm.trans hc')).1⟩
        obtain ⟨r', -, htask', -, -, -, hr', -⟩ := attempt_of_call rfl h hp hc rfl
        obtain rfl := Task.attemptConsensus.inj (htask.symm.trans htask')
        exact (copy_of_call hp hc hx).1 d' x rfl (hr'.symm.trans hrkey)
  · have hsent := sent_of_informing hinf
    obtain ⟨x, y, hy⟩ := hsent
    obtain ⟨p, hp, -, htask', -⟩ := hs.event hq hy
    obtain ⟨r', hr', hrkey⟩ := hinf.1
    obtain rfl : r' = r := by
      rw [request?_eq_some_iff.2 htask] at hr'
      exact (Option.some.inj hr').symm
    exact has_pending h hs hkept hkey hone hp (fun hdone ↦ hinf.2.1 (hs.done hp hq hdone))
      (htask'.symm.trans htask) hrkey hq ⟨x, y, hy⟩ hx

end Steps

/-- **Requests that are handled one at a time** are sets that are handled one at a time. -/
theorem setsOneByOne_of_oneAtATime (h : Reach C (cl.start fun _ ↦ {}) s) (hl : s.OneAtATime l) :
    SetsOneByOne key s l := by
  cases l with
  | step i o =>
    rintro p hp ⟨r, hr, -⟩ j hj hji q hq ⟨r', hr', -⟩
    rcases hl.rests hq hji with hdone | ⟨-, hnil, -⟩ | ⟨m, hm, -⟩
    · exact .inl hdone
    · exact .inr hnil
    · -- an attempt has no callees
      obtain ⟨dest, t, k, -, hc, -⟩ := h.child rfl hq hm
      have htask := request?_eq_some_iff.1 hr'
      have hemit := ((contract cl).lawful rfl h j q hq).emits hc
      rw [htask] at hemit
      cases dest <;> exact absurd hemit id
  | _ => trivial

end Runs

/-- What is started has nothing to acknowledge. -/
theorem kept_start (key : String) : Kept key (cl.start fun _ ↦ {}) fun _ ↦ false where
  latest := by
    rintro value ⟨x, hx, -⟩
    exact absurd hx List.not_mem_nil
  pending j p r hp := absurd hp (by simp)

/-- What the record says is so in every run. -/
theorem kept {key : String} (hkey : key ≠ "leader") {s : Net (db cl)} {g : Holder → Bool}
    (h : ReachWith (ElectsInformed key) (track key) (cl.start fun _ ↦ {}, fun _ ↦ false) (s, g)) :
    Kept key s g := by
  let C : Net (db cl) → Label Db → Prop := fun _ _ ↦ True
  have hC : ∀ s g l, ElectsInformed key s g l → C s l := fun _ _ _ _ ↦ trivial
  refine h.invariant (I := Kept key) hC (kept_start key) ?_
  intro s g l s' hr hr' ih hl hs
  exact Kept.step hr hr' hs ih hkey hl.1

/-- A node that is elected assigns its register, or commits a success message that does. -/
theorem executed_of_elected {s : Net (db cl)} {l : Label Db} {a : String}
    (ha : elected? s l = some a) : ∃ b, s.executed? l = some (a, b) ∧
      (b = .writeLeader a ∨ ∃ q, b = .success q ∧ q.key = "leader") := by
  rw [elected?] at ha
  split at ha
  · rename_i d v hex
    obtain ⟨rfl, rfl⟩ : v = d ∧ d = a := by simpa using ha
    exact ⟨_, hex, .inl rfl⟩
  · rename_i d q hex
    obtain ⟨⟨hkey, -⟩, rfl⟩ : (q.key = "leader" ∧ q.value = d ∧ Current q (s.nodes d)) ∧ d = a := by
      simpa using ha
    exact ⟨_, hex, .inr ⟨q, rfl, hkey⟩⟩
  · cases ha

/-- **Leader completeness** in every run that elects no node that has missed a set of the key, with
sets of the key handled one at a time, any losses, and any restarts: whenever a member comes to
regard itself as leader, its store holds the value of the last acknowledged set. -/
theorem elected_complete {key : String} (hkey : key ≠ "leader") {s : Net (db cl)}
    {g : Holder → Bool}
    (h : ReachWith (ElectsInformed key) (track key) (cl.start fun _ ↦ {}, fun _ ↦ false) (s, g)) :
    ∀ l s', ElectsInformed key s g l → s.step l = some s' → ∀ a ∈ elected? s l,
      a ∈ cl.memberList → CompleteFor key s' a := by
  intro l s' hl hstep a ha hmember value hlatest
  have hs : Step s l s' := .of_step hstep
  have hr : Reach (fun _ _ ↦ True) (cl.start fun _ ↦ {}) s := h.reach fun _ _ _ _ ↦ trivial
  obtain ⟨b, hex, hb⟩ := executed_of_elected ha
  rcases latestAcked_step hr hs hlatest with ⟨-, hlatest⟩ |
    ⟨-, i, o, p, r, rfl, hp, -, htask, hrkey, -⟩
  · -- the store was complete before, and is not written
    obtain ⟨hnot, hinformed⟩ := hl.2 a ha
    have hhas := (kept hkey h).latest value hlatest (.store a) hnot ⟨hmember, hinformed⟩
    refine hhas.step hr hs ?_
    rintro (⟨q, hex', hqkey, -⟩ | ⟨v, hex'⟩ | rfl)
    · obtain ⟨-, rfl⟩ := Prod.mk.inj (Option.some.inj (hex.symm.trans hex'))
      rcases hb with heq | ⟨q', heq, hkey'⟩
      · cases heq
      · obtain rfl := Act.success.inj heq
        exact hkey (hqkey.symm.trans hkey')
    · obtain ⟨-, rfl⟩ := Prod.mk.inj (Option.some.inj (hex.symm.trans hex'))
      rcases hb with heq | ⟨q', heq, -⟩
      · cases heq
      · cases heq
    · cases hex
  · -- an attempt on the key does not elect anybody
    obtain ⟨p', dest, k, hp', hc, -⟩ := executed?_step hex
    obtain rfl := Option.some.inj (hp.symm.trans hp')
    obtain ⟨dest', b', heq, hnot, hsuccess⟩ := act_of_attempt rfl hr hp htask hc
    obtain ⟨-, rfl⟩ := Call.act.inj heq
    rcases hb with rfl | ⟨q, rfl, hqkey⟩
    · exact absurd rfl (hnot a)
    · exact absurd ((hrkey.symm.trans (hsuccess q rfl).symm).trans hqkey) hkey

/-! ### Runs of three nodes -/

/-- `c:1` has restarted after the set, has copied the store of `a:1`, and is elected. (In its first
election it adopts the value of the one that it has forgotten.) -/
theorem elected_complete_trio : ∃ (s s' : Net (db trio)) (g : Holder → Bool) (l : Label Db),
    ReachWith (ElectsInformed "k") (track "k") (trio.start fun _ ↦ {}, fun _ ↦ false) (s, g) ∧
      s.step l = some s' ∧ elected? s l = some "c:1" ∧ LatestAcked s' "k" "v" ∧
      CompleteFor "k" s' "c:1" := by
  obtain ⟨⟨s, g⟩, h, hl, ha, hlatest⟩ : ∃ y : Net (db trio) × (Holder → Bool),
      ReachWith (ElectsInformed "k") (track "k") (trio.start fun _ ↦ {}, fun _ ↦ false) y ∧
        ElectsInformed "k" y.1 y.2 (.step 8 .delivered) ∧
        elected? y.1 (.step 8 .delivered) = some "c:1" ∧
        (y.1.step (.step 8 .delivered)).any (fun s' ↦ LatestAcked s' "k" "v") = true :=
    ReachWith.exists_of_steps (by
      decide +kernel : (stepsWith (ElectsInformed "k") (track "k")
        (trio.start fun _ ↦ {}, fun _ ↦ false)
        (electAndSet ++ [.restart "c:1"] ++ calls 9 4 ++ election "c:1" 5 ++
          [.submit "c:1" (.electLeader "leader" "c:1")] ++ calls 1 7 ++ calls 12 8)).any _ = true)
  obtain ⟨s', hs', hlatest⟩ := (Option.any_eq_true _ _).1 hlatest
  exact ⟨s, s', g, _, h, hs', ha, of_decide_eq_true hlatest,
    elected_complete (by decide) h _ s' hl hs' "c:1" ha (by decide)⟩

/-- **A leader without an acknowledged set**: `b:1` misses the success message of the set of `a:1`,
which returns OK all the same, and is elected. -/
theorem not_elected_complete_trio : ∃ (s s' : Net (db trio)) (l : Label Db),
    Reach Sequential (trio.start fun _ ↦ {}) s ∧ Sequential s l ∧ s.step l = some s' ∧
      elected? s l = some "b:1" ∧ (s'.nodes "b:1").kvStore.lookup "k" = none ∧
      ¬ CompleteFor "k" s' "b:1" := by
  obtain ⟨s, h, hl, ha, hmissing⟩ : ∃ s, Reach Sequential (trio.start fun _ ↦ {}) s ∧
      Sequential s (.step 5 .delivered) ∧ elected? s (.step 5 .delivered) = some "b:1" ∧
      (s.step (.step 5 .delivered)).any (fun s' ↦ LatestAcked s' "k" "v" ∧
        (s'.nodes "b:1").kvStore.lookup "k" = none) = true :=
    Reach.exists_of_steps (by
      decide +kernel : ((trio.start fun _ ↦ {}).steps Sequential
        (election "a:1" 0 ++
          [.submit "a:1" (.set "k" "v")] ++ calls 2 2 ++ calls 11 3 ++ [.step 3 .requestLost] ++
            calls 1 3 ++ calls 1 2 ++
          [.submit "b:1" (.electLeader "leader" "b:1")] ++ calls 1 4 ++ calls 11 5)).any _ = true)
  obtain ⟨s', hs', hmissing⟩ := (Option.any_eq_true _ _).1 hmissing
  obtain ⟨hlatest, hnone⟩ := of_decide_eq_true hmissing
  refine ⟨s, s', _, h, hl, hs', ha, hnone, fun hcomplete ↦ ?_⟩
  cases hnone.symm.trans (hcomplete "v" hlatest)

end ReplicatedDB
