import ReplicatedDB.Pointers.Graph
import ReplicatedDB.Protocol.Validity

/-!
# Where requests are forwarded

A node that is not the leader forwards a request to the node named in its leader register, which
may forward it again. Registers change one at a time: while the success messages of an election
come in, a follower may already name the new leader, whose own register still names the old one.
So there are states in which two nodes forward to each other (`not_forwardingEnds_trio`).

The registers form a pointer graph, and a step closes a cycle exactly if it lets a node name
another one whose register leads back to it (`acyclic_step_iff`). It does not, if the node named
knows of its own election by then: its register names itself, or nobody yet. In runs in which
every node learns of its own election before the others do, no request is forwarded more often
than there are nodes (`forwardingEnds_of_namesLeader`).
-/

namespace ReplicatedDB

open Rpc Rpc.Net Pointers

variable {cl : Cluster}

/-- The node to which `d` forwards a request: the one named in its leader register, if that is
another member. -/
def target (s : Net (db cl)) (d : String) : Option String :=
  if (s.nodes d).leader ≠ d ∧ (s.nodes d).leader ∈ cl.memberList then some (s.nodes d).leader
  else none

/-- What an action puts into the leader register. -/
def Act.assigned? : Act → Replica → Option String
  | .writeLeader value, _ => some value
  | .success q, s => if Current q s ∧ q.key = "leader" then some q.value else none
  | _, _ => none

/-- Requests of clients to members, about keys of the store, and elections; nobody restarts. -/
def StoreCalls (_ : Net (db cl)) : Label Db → Prop
  | .submit a t => a ∈ cl.memberList ∧ t.OfClient a ∧ ∀ value, t ≠ .set "leader" value
  | .restart _ => False
  | _ => True

/-- **Forwarding ends**: following the leader registers never leads back, and a request goes
through every member at most once. -/
structure ForwardingEnds (s : Net (db cl)) : Prop where
  acyclic : Acyclic (target s)
  length_le : ∀ route : List String, route.IsChain (Points (target s)) →
    (∀ d ∈ route.head?, d ∈ cl.memberList) → route.length ≤ cl.memberList.length

/-- The step does not let a node name another one whose register leads back to it. -/
def NotLedBack (s : Net (db cl)) (l : Label Db) : Prop :=
  ∀ m ∈ s.executed? l, ∀ v ∈ m.2.assigned? (s.nodes m.1), v ≠ m.1 → v ∈ cl.memberList →
    ¬ Leads (target s) v m.1

/-- Where a node is made to name another member, that one forwards to nobody: its own register
names itself, or it has not been told of any leader. -/
def NamesLeader (s : Net (db cl)) (l : Label Db) : Prop :=
  ∀ m ∈ s.executed? l, ∀ v ∈ m.2.assigned? (s.nodes m.1), v ≠ m.1 → v ∈ cl.memberList →
    (s.nodes v).leader = v ∨ (s.nodes v).leader = ""

theorem leader_act_eq (a : Act) (s : Replica) (hsound : a.Sound) :
    (act a s).2.leader = (a.assigned? s).getD s.leader := by
  cases a with
  | propose q => simp [act, propose_state, Act.assigned?]
  | accept q => simp [act, accept_state, Act.assigned?]
  | success q =>
    have hstate := success_state q s ((by decide : intMin ≤ 0).trans hsound.2)
    rw [Act.assigned?]
    simp only [act, hstate]
    split <;> rfl
  | _ => rfl

/-- A node that names itself, or nobody, forwards to nobody. -/
theorem target_eq_none {s : Net (db cl)} {v : String}
    (h : (s.nodes v).leader = v ∨ (s.nodes v).leader = "") : target s v = none := by
  rw [target, if_neg]
  rintro ⟨hne, hmem⟩
  rcases h with h | h
  · exact hne h
  · exact cl.nonempty (h ▸ hmem)

/-- A node that forwards to nobody leads to no other node. -/
theorem NamesLeader.notLedBack {s : Net (db cl)} {l : Label Db} (h : NamesLeader s l) :
    NotLedBack s l := by
  intro m hm v hv hne hmem hleads
  exact hne (hleads.eq_of_none (target_eq_none (h m hm v hv hne hmem))).symm

/-- A route from a member stays among the members. -/
theorem mem_of_route {s : Net (db cl)} {route : List String}
    (hroute : route.IsChain (Points (target s))) (hhead : ∀ d ∈ route.head?, d ∈ cl.memberList) :
    ∀ d ∈ route, d ∈ cl.memberList := by
  induction route with
  | nil => simp
  | cons d rest ih =>
    have hd : d ∈ cl.memberList := hhead d rfl
    cases rest with
    | nil => simpa using hd
    | cons e rest =>
      obtain ⟨hde, hrest⟩ := List.isChain_cons_cons.1 hroute
      have he : e ∈ cl.memberList := by
        rw [Points, target] at hde
        split at hde
        · rename_i hmem
          exact Option.some.inj hde ▸ hmem.2
        · cases hde
      intro x hx
      rcases List.mem_cons.1 hx with rfl | hx
      · exact hd
      · refine ih hrest (fun y hy ↦ ?_) x hx
        obtain rfl := Option.some.inj hy
        exact he

/-- Without a cycle, a request goes through every member at most once. -/
theorem forwardingEnds_of_acyclic {s : Net (db cl)} (h : Acyclic (target s)) :
    ForwardingEnds s where
  acyclic := h
  length_le _ hroute hhead :=
    (h.nodup hroute).subperm (fun _ hd ↦ mem_of_route hroute hhead _ hd) |>.length_le

section Runs

variable {C : Net (db cl) → Label Db → Prop} {nodes : String → Replica} {s s' : Net (db cl)}
  {l : Label Db}

/-- **When a step closes a cycle**: exactly if it lets a node name another one that leads back
to it. -/
theorem acyclic_step_iff (h : Reach C (cl.start nodes) s) (hl : l.NoRestart) (hs : Step s l s')
    (hac : Acyclic (target s)) : Acyclic (target s') ↔ NotLedBack s l := by
  have hsame : target s' = target s → (∀ d a, s.executed? l = some (d, a) →
      a.assigned? (s.nodes d) = none) → (Acyclic (target s') ↔ NotLedBack s l) := by
    intro heq hnone
    rw [heq]
    refine iff_of_true hac fun m hm v hv ↦ ?_
    rw [hnone m.1 m.2 hm] at hv
    cases hv
  rcases hs.nodes with ⟨hnone, hnodes⟩ | ⟨d, a, hex, hnodes⟩ | ⟨a, rfl, -⟩
  · refine hsame (by funext x; rw [target, target, hnodes]) fun d a hex ↦ ?_
    cases hnone.symm.trans hex
  · have hleader := leader_act_eq a (s.nodes d) (sound_of_requested rfl rfl h (hs.executed hex))
    have hother : ∀ x, x ≠ d → target s' x = target s x := fun x hx ↦ by
      rw [target, target, hnodes, Function.update_of_ne hx]
    have hself : target s' d =
        if ((a.assigned? (s.nodes d)).getD (s.nodes d).leader) ≠ d ∧
          ((a.assigned? (s.nodes d)).getD (s.nodes d).leader) ∈ cl.memberList then
          some ((a.assigned? (s.nodes d)).getD (s.nodes d).leader) else none := by
      rw [target, hnodes, Function.update_self]
      simp only [hleader]
    rcases hv : a.assigned? (s.nodes d) with _ | v
    · refine hsame (funext fun x ↦ ?_) fun d' a' hex' ↦ ?_
      · by_cases hx : x = d
        · rw [hx, hself, hv]
          rfl
        · exact hother x hx
      · obtain ⟨rfl, rfl⟩ := Prod.mk.inj (Option.some.inj (hex.symm.trans hex'))
        exact hv
    · have hnot : NotLedBack s l ↔ (v ≠ d → v ∈ cl.memberList → ¬ Leads (target s) v d) := by
        refine ⟨fun hnot ↦ hnot _ hex v hv, fun hnot m hm v' hv' ↦ ?_⟩
        obtain rfl := Option.some.inj (hex.symm.trans hm)
        obtain rfl := Option.some.inj (hv.symm.trans hv')
        exact hnot
      rw [hnot]
      rw [hv, Option.getD_some] at hself
      have hupdate : target s' = Function.update (target s) d (target s' d) := by
        funext x
        by_cases hx : x = d
        · rw [hx, Function.update_self]
        · rw [Function.update_of_ne hx, hother x hx]
      rw [hupdate, hself]
      split
      · rename_i hmem
        rw [acyclic_update_iff hac]
        exact ⟨fun hnot _ _ ↦ hnot, fun hnot ↦ hnot hmem.1 hmem.2⟩
      · rename_i hmem
        exact iff_of_true hac.update_none fun hne hv ↦ absurd ⟨hne, hv⟩ hmem
  · exact absurd hl id

end Runs

/-- **Forwarding never cycles** in runs in which no node is told of a leader that itself still
forwards to another one. -/
theorem forwardingEnds_of_namesLeader {s : Net (db cl)}
    (h : Reach (fun s l ↦ StoreCalls s l ∧ NamesLeader s l) (cl.start fun _ ↦ {}) s) :
    ForwardingEnds s := by
  refine forwardingEnds_of_acyclic (h.invariant (I := fun s ↦ Acyclic (target s)) ?_ ?_)
  · -- at first nobody names a leader
    have hnone : target (cl.start fun _ ↦ {}) = fun _ ↦ none :=
      funext fun _ ↦ target_eq_none (.inr rfl)
    rw [hnone]
    exact acyclic_none
  · intro s l s' hr _ ih hl hs
    have hrestart : l.NoRestart := by
      cases l with
      | restart a => exact hl.1
      | _ => trivial
    exact (acyclic_step_iff hr hrestart hs ih).2 hl.2.notLedBack

/-! ### A run of three nodes -/

instance (s : Net (db cl)) : DecidablePred (StoreCalls s)
  | .submit a (.set key value) => decidable_of_iff
    (a ∈ cl.memberList ∧ key ≠ "leader")
    ⟨fun h ↦ ⟨h.1, trivial, fun _ heq ↦ h.2 (Task.set.inj heq).1⟩,
      fun h ↦ ⟨h.1, fun hkey ↦ h.2.2 value (hkey ▸ rfl)⟩⟩
  | .submit a (.electLeader key value) => decidable_of_iff
    (a ∈ cl.memberList ∧ key = "leader" ∧ value = a)
    ⟨fun h ↦ ⟨h.1, h.2, nofun⟩, fun h ↦ ⟨h.1, h.2.1⟩⟩
  | .submit a (.get key) => decidable_of_iff (a ∈ cl.memberList)
    ⟨fun h ↦ ⟨h, trivial, nofun⟩, fun h ↦ h.1⟩
  | .submit _ (.attemptConsensus _) | .submit _ .coordinate | .restart _ =>
    .isFalse (by simp [StoreCalls, Task.OfClient])
  | .step _ _ | .deliver _ => .isTrue trivial

instance (s : Net (db cl)) : DecidablePred (NamesLeader s) := fun l ↦
  inferInstanceAs (Decidable (∀ m ∈ s.executed? l, ∀ v ∈ m.2.assigned? (s.nodes m.1), v ≠ m.1 →
    v ∈ cl.memberList → (s.nodes v).leader = v ∨ (s.nodes v).leader = ""))

/-- `b:1` is elected, and then `a:1`, which is told first: in the end `b:1` and `c:1` forward to
`a:1`. -/
theorem forwardingEnds_trio : ∃ s,
    Reach (fun s l ↦ StoreCalls s l ∧ NamesLeader s l) (trio.start fun _ ↦ {}) s ∧
      target s "b:1" = some "a:1" ∧ target s "c:1" = some "a:1" ∧ ForwardingEnds s := by
  obtain ⟨s, hs, hb, hc⟩ : ∃ s,
      Reach (fun s l ↦ StoreCalls s l ∧ NamesLeader s l) (trio.start fun _ ↦ {}) s ∧
        target s "b:1" = some "a:1" ∧ target s "c:1" = some "a:1" :=
    Reach.exists_of_steps (by
      decide +kernel : ((trio.start fun _ ↦ {}).steps
        (fun s l ↦ StoreCalls s l ∧ NamesLeader s l)
        ([.submit "b:1" (.electLeader "leader" "b:1")] ++ calls 1 0 ++ calls 13 1 ++ calls 2 0 ++
          [.submit "a:1" (.electLeader "leader" "a:1")] ++ calls 1 2 ++ calls 13 3 ++
          calls 2 2)).any _ = true)
  exact ⟨s, hs, hb, hc, forwardingEnds_of_namesLeader hs⟩

/-- `a:1` is elected, and then `b:1`: when `a:1` has got its success message, it forwards to
`b:1`, and `b:1` still to `a:1`. -/
theorem not_forwardingEnds_trio : ∃ s, Reach StoreCalls (trio.start fun _ ↦ {}) s ∧
    ¬ ForwardingEnds s := by
  obtain ⟨s, hs, ha, hb⟩ : ∃ s, Reach StoreCalls (trio.start fun _ ↦ {}) s ∧
      (s.nodes "a:1").leader = "b:1" ∧ (s.nodes "b:1").leader = "a:1" :=
    Reach.exists_of_steps (by
      decide +kernel : ((trio.start fun _ ↦ {}).steps StoreCalls
        ([.submit "a:1" (.electLeader "leader" "a:1")] ++ calls 1 0 ++ calls 13 1 ++ calls 2 0 ++
          [.submit "b:1" (.electLeader "leader" "b:1")] ++ calls 1 2 ++ calls 11 3)).any _ = true)
  refine ⟨s, hs, fun h ↦ h.acyclic "a:1" (.tail (.single (b := "b:1") ?_) ?_)⟩
  · rw [Points, target, ha]
    exact if_pos (by decide)
  · rw [Points, target, hb]
    exact if_pos (by decide)

end ReplicatedDB
