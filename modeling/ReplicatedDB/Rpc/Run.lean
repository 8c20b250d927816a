import ReplicatedDB.Rpc.Network

/-!
# Runs of a network

`Reach C s s'` says that some run leads from `s` to `s'` all of whose steps satisfy `C`, a
condition on the state before the step and on its label. `Reach.invariant` is the induction
rule for runs.

What one step can change is said three times, once for each part of the state, and the
invariants of a concrete service are derived from these: `Step.activation` for an activation,
`Step.nodes` for the states of the nodes, `Step.mem_late` for the requests in flight. What is
executed or left in flight was `Requested`.

`Contract` attaches to every procedure a specification in the program logic, and
`Contract.lawful` carries it to networks: in every reachable state, the past of each activation
obeys its contract and so does whatever is left of its program.
-/

namespace Rpc

open Relation

variable {S : Sig} {V : Service S}

namespace Net

/-! ### The parts of the state that the parts of a step leave alone -/

section Simp

variable [DecidableEq S.Addr] (s : Net V) (d : S.Addr) (a : S.Act) (t : S.Task) (i : ℕ)
  (c : Option ℕ) (p : Activation S) (o : Outcome)

@[simp] theorem exec_acts : (s.exec d a c).acts = s.acts := rfl
@[simp] theorem exec_late : (s.exec d a c).late = s.late := rfl
@[simp] theorem exec_clock : (s.exec d a c).clock = s.clock := rfl
@[simp] theorem exec_nodes :
    (s.exec d a c).nodes = Function.update s.nodes d (V.act a (s.nodes d)).2 := rfl
@[simp] theorem exec_served :
    (s.exec d a c).served = s.served ++ [⟨d, a, (V.act a (s.nodes d)).1, c⟩] := rfl
omit [DecidableEq S.Addr] in
@[simp] theorem open_nodes : (s.open' d t c).nodes = s.nodes := rfl
omit [DecidableEq S.Addr] in
@[simp] theorem open_late : (s.open' d t c).late = s.late := rfl
omit [DecidableEq S.Addr] in
@[simp] theorem open_served : (s.open' d t c).served = s.served := rfl
omit [DecidableEq S.Addr] in
@[simp] theorem open_clock : (s.open' d t c).clock = s.clock := rfl
omit [DecidableEq S.Addr] in
@[simp] theorem open_acts : (s.open' d t c).acts = s.acts ++ [s.opened d t c] := rfl
omit [DecidableEq S.Addr] in
@[simp] theorem put_nodes : (s.put i p).nodes = s.nodes := rfl
omit [DecidableEq S.Addr] in
@[simp] theorem put_late : (s.put i p).late = s.late := rfl
omit [DecidableEq S.Addr] in
@[simp] theorem put_served : (s.put i p).served = s.served := rfl
omit [DecidableEq S.Addr] in
@[simp] theorem put_clock : (s.put i p).clock = s.clock := rfl
omit [DecidableEq S.Addr] in
@[simp] theorem put_acts : (s.put i p).acts = s.acts.set i p := rfl
omit [DecidableEq S.Addr] in
@[simp] theorem tick_nodes : s.tick.nodes = s.nodes := rfl
omit [DecidableEq S.Addr] in
@[simp] theorem tick_late : s.tick.late = s.late := rfl
omit [DecidableEq S.Addr] in
@[simp] theorem tick_served : s.tick.served = s.served := rfl
omit [DecidableEq S.Addr] in
@[simp] theorem tick_acts : s.tick.acts = s.acts := rfl
omit [DecidableEq S.Addr] in
@[simp] theorem tick_clock : s.tick.clock = s.clock + 1 := rfl
@[simp] theorem crash_nodes : (s.crash d).nodes = Function.update s.nodes d V.fresh := rfl
@[simp] theorem crash_late : (s.crash d).late = s.late := rfl
@[simp] theorem crash_served : (s.crash d).served = s.served := rfl
@[simp] theorem crash_clock : (s.crash d).clock = s.clock := rfl

@[simp] theorem transmit_acts : (s.transmit i d a o).acts = s.acts := by cases o <;> rfl
@[simp] theorem transmit_clock : (s.transmit i d a o).clock = s.clock := by cases o <;> rfl

theorem transmit_nodes_of_executed (h : o.Executed) :
    (s.transmit i d a o).nodes = Function.update s.nodes d (V.act a (s.nodes d)).2 := by
  rcases h with rfl | rfl <;> rfl

theorem transmit_nodes_of_not_executed (h : ¬ o.Executed) :
    (s.transmit i d a o).nodes = s.nodes := by
  cases o <;> first | rfl | exact absurd (by simp [Outcome.Executed]) h

omit [DecidableEq S.Addr] in
@[simp] theorem opened_node : (s.opened d t c).node = d := rfl
omit [DecidableEq S.Addr] in
@[simp] theorem opened_task : (s.opened d t c).task = t := rfl
omit [DecidableEq S.Addr] in
@[simp] theorem opened_origin : (s.opened d t c).origin = c := rfl
omit [DecidableEq S.Addr] in
@[simp] theorem opened_prog : (s.opened d t c).prog = V.body d t := rfl
omit [DecidableEq S.Addr] in
@[simp] theorem opened_hist : (s.opened d t c).hist = [] := rfl
omit [DecidableEq S.Addr] in
@[simp] theorem opened_child : (s.opened d t c).child = none := rfl
omit [DecidableEq S.Addr] in
@[simp] theorem opened_alive : (s.opened d t c).alive = true := rfl
omit [DecidableEq S.Addr] in
@[simp] theorem opened_start : (s.opened d t c).start = s.clock := rfl
omit [DecidableEq S.Addr] in
@[simp] theorem opened_stop : (s.opened d t c).stop = none := rfl

end Simp

/-! ### Finding activations -/

theorem getElem?_set_some {l : List (Activation S)} {i j : ℕ} {p q : Activation S}
    (h : (l.set i p)[j]? = some q) : j = i ∧ q = p ∨ j ≠ i ∧ l[j]? = some q := by
  rw [List.getElem?_set] at h
  by_cases hij : i = j
  · subst hij
    rw [if_pos rfl] at h
    split at h
    · exact .inl ⟨rfl, (Option.some.inj h).symm⟩
    · cases h
  · rw [if_neg hij] at h
    exact .inr ⟨Ne.symm hij, h⟩

theorem getElem?_append_one {l : List (Activation S)} {j : ℕ} {p q : Activation S}
    (h : (l ++ [p])[j]? = some q) : l[j]? = some q ∨ j = l.length ∧ q = p := by
  rcases Nat.lt_trichotomy j l.length with hj | rfl | hj
  · rw [List.getElem?_append_left hj] at h
    exact .inl h
  · rw [List.getElem?_concat_length] at h
    exact .inr ⟨rfl, (Option.some.inj h).symm⟩
  · rw [List.getElem?_eq_none (by simp; omega)] at h
    cases h

theorem set_self {l : List (Activation S)} {i : ℕ} {p q : Activation S} (h : l[i]? = some p) :
    (l.set i q)[i]? = some q := by
  have hlt : i < l.length := (List.getElem?_eq_some_iff.1 h).1
  rw [List.getElem?_set_self hlt]

theorem lt_length {l : List (Activation S)} {i : ℕ} {p : Activation S} (h : l[i]? = some p) :
    i < l.length := (List.getElem?_eq_some_iff.1 h).1

/-- What is found in a list with one more element. -/
theorem filterMap_concat {α β : Type} (f : α → Option β) (l : List α) (a : α) :
    (l ++ [a]).filterMap f = l.filterMap f ++ (f a).toList := by
  rw [List.filterMap_append, List.append_cancel_left_eq]
  rcases h : f a with _ | b
  · rw [List.filterMap_cons_none h]
    rfl
  · rw [List.filterMap_cons_some h]
    rfl

/-- What is found in some activation. -/
theorem mem_filterMap_acts {β : Type} {s : Net V} {f : Activation S → Option β} {x : β} :
    x ∈ s.acts.filterMap f ↔ ∃ (j : ℕ) (p : Activation S), s.acts[j]? = some p ∧ f p = some x := by
  rw [List.mem_filterMap]
  constructor
  · rintro ⟨p, hp, hx⟩
    obtain ⟨j, hj⟩ := List.getElem?_of_mem hp
    exact ⟨j, p, hj, hx⟩
  · rintro ⟨j, p, hj, hx⟩
    exact ⟨p, List.mem_of_getElem? hj, hx⟩

/-! ### What a step does -/

variable [DecidableEq S.Addr] {s s' : Net V} {l : Label S}

/-- The answer an activation at node `n` with index `j` gets to the call `c`. -/
def Answers (s : Net V) (l : Label S) (j : ℕ) (p : Activation S) : (c : Call S) → c.Ret → Prop
  | .act dest a, r => ∃ o, l = .step j o ∧ (dest.isSome ∨ o = .delivered) ∧
      r = s.answer (dest.getD p.node) a o
  | .invoke dest _, r =>
      (∃ i q, p.child = some i ∧ s.acts[i]? = some q ∧ q.Returned r ∧ l = .step j .delivered) ∨
      (dest.isSome ∧ r = V.failed ∧ ∃ o, l = .step j o)

omit [DecidableEq S.Addr] in
/-- Only the steps of an activation answer it. -/
theorem Answers.label {j : ℕ} {p : Activation S} {c : Call S} {r : c.Ret}
    (h : s.Answers l j p c r) : ∃ o, l = .step j o := by
  cases c with
  | act dest a =>
    obtain ⟨o, hl, -⟩ := h
    exact ⟨o, hl⟩
  | invoke dest t =>
    rcases h with ⟨i, q, -, -, -, hl⟩ | ⟨-, -, hl⟩
    · exact ⟨_, hl⟩
    · exact hl

omit [DecidableEq S.Addr] in
/-- The action that an activation calls next is executed, unless it gets lost. -/
theorem executed?_eq {i : ℕ} {p : Activation S} {dest : Option S.Addr} {a : S.Act}
    {k : S.Ret a → Prog S S.Reply} (hp : s.acts[i]? = some p)
    (hc : p.prog = .call (.act dest a) k) (o : Outcome) :
    s.executed? (.step i o) = if o.Executed then some (dest.getD p.node, a) else none := by
  simp only [executed?, hp, Option.bind_some, hc]

omit [DecidableEq S.Addr] in
theorem executed?_of_executed {i : ℕ} {p : Activation S} {dest : Option S.Addr} {a : S.Act}
    {k : S.Ret a → Prog S S.Reply} (hp : s.acts[i]? = some p)
    (hc : p.prog = .call (.act dest a) k) {o : Outcome} (ho : o.Executed) :
    s.executed? (.step i o) = some (dest.getD p.node, a) :=
  (executed?_eq hp hc o).trans (if_pos ho)

omit [DecidableEq S.Addr] in
/-- A procedure call executes nothing. -/
theorem executed?_invoke {i : ℕ} {p : Activation S} {dest : Option S.Addr} {t : S.Task}
    {k : S.Reply → Prog S S.Reply} (hp : s.acts[i]? = some p)
    (hc : p.prog = .call (.invoke dest t) k) (o : Outcome) : s.executed? (.step i o) = none := by
  simp only [executed?, hp, Option.bind_some, hc]

omit [DecidableEq S.Addr] in
/-- An action that is answered was executed, or its call failed. -/
theorem Answers.lost_or_executed {j : ℕ} {p : Activation S} {dest : Option S.Addr} {a : S.Act}
    {k : S.Ret a → Prog S S.Reply} {r : S.Ret a} (h : s.Answers l j p (.act dest a) r)
    (hp : s.acts[j]? = some p) (hc : p.prog = .call (.act dest a) k) :
    (dest.isSome ∧ r = V.lost a) ∨ (l = .step j .delivered ∧
      s.executed? l = some (dest.getD p.node, a) ∧
      r = (V.act a (s.nodes (dest.getD p.node))).1) := by
  obtain ⟨o, rfl, ho, rfl⟩ := h
  cases o with
  | delivered => exact .inr ⟨rfl, executed?_of_executed hp hc (.inl rfl), rfl⟩
  | _ => exact .inl ⟨ho.resolve_right nofun, rfl⟩

/-- Where a new activation comes from. -/
def Opens (s : Net V) (l : Label S) (a : S.Addr) (t : S.Task) (origin : Option ℕ) : Prop :=
  (l = .submit a t ∧ origin = none) ∨
  (l = .restart a ∧ t = V.boot ∧ origin = none) ∨
  ∃ i p dest k, l = .step i .delivered ∧ s.acts[i]? = some p ∧ p.alive = true ∧
    p.prog = .call (.invoke dest t) k ∧ p.child = none ∧ a = dest.getD p.node ∧ origin = some i

/-- The procedure that a step starts, if any. -/
def opens? (s : Net V) : Label S → Option (S.Addr × S.Task)
  | .submit a t => some (a, t)
  | .step i o =>
    s.acts[i]?.bind fun p ↦
      match p.prog with
      | .call (.invoke dest t) _ =>
        if o = .delivered ∧ p.child = none then some (dest.getD p.node, t) else none
      | _ => none
  | .restart a => some (a, V.boot)
  | .deliver _ => none

omit [DecidableEq S.Addr] in
theorem Opens.opens?_eq {a : S.Addr} {t : S.Task} {origin : Option ℕ}
    (h : s.Opens l a t origin) : s.opens? l = some (a, t) := by
  rcases h with ⟨rfl, -⟩ | ⟨rfl, rfl, -⟩ | ⟨i, p, dest, k, rfl, hp, -, hc, hchild, rfl, -⟩
  · rfl
  · rfl
  · simp [opens?, hp, hc, hchild]

/-- **What a step does to an activation**: nothing, or it starts it, makes it wait, kills it,
or gives it the answer to its next call. -/
theorem Step.activation (h : Step s l s') {j : ℕ} {q : Activation S}
    (hq : s'.acts[j]? = some q) :
    s.acts[j]? = some q ∨
    (j = s.acts.length ∧ ∃ a t origin, q = s.opened a t origin ∧ s.Opens l a t origin) ∨
    (∃ p, s.acts[j]? = some p ∧ q = p.await s.acts.length ∧ p.child = none ∧ p.alive = true ∧
      l = .step j .delivered ∧ ∃ dest t k, p.prog = .call (.invoke dest t) k ∧
        s'.acts[s.acts.length]? = some (s.opened (dest.getD p.node) t (some j))) ∨
    (∃ p, s.acts[j]? = some p ∧ q = { p with alive := false } ∧ l = .restart p.node) ∨
    ∃ p c k r, s.acts[j]? = some p ∧ p.alive = true ∧ p.prog = .call c k ∧
      q = p.resume s.clock c r (k r) ∧ s.Answers l j p c r := by
  cases h with
  | submit a t =>
    rcases getElem?_append_one hq with h | ⟨rfl, rfl⟩
    · exact .inl h
    · exact .inr (.inl ⟨rfl, a, t, none, rfl, .inl ⟨rfl, rfl⟩⟩)
  | @act i p o dest a k hp halive hc ho =>
    simp only [tick_acts, put_acts, transmit_acts] at hq
    rcases getElem?_set_some hq with ⟨rfl, rfl⟩ | ⟨-, h⟩
    · exact .inr (.inr (.inr (.inr ⟨p, .act dest a, k, _, hp, halive, hc, rfl, o, rfl, ho, rfl⟩)))
    · exact .inl h
  | @spawn i p dest t k hp halive hc hchild =>
    simp only [tick_acts, put_acts, open_acts] at hq
    rcases getElem?_set_some hq with ⟨rfl, rfl⟩ | ⟨-, h⟩
    · refine .inr (.inr (.inl ⟨p, hp, rfl, hchild, halive, rfl, dest, t, k, hc, ?_⟩))
      rw [tick_acts, put_acts, open_acts, List.getElem?_set_ne (Nat.ne_of_lt (lt_length hp)),
        List.getElem?_concat_length]
    · rcases getElem?_append_one h with h | ⟨rfl, rfl⟩
      · exact .inl h
      · exact .inr (.inl ⟨rfl, _, t, some i, rfl,
          .inr (.inr ⟨i, p, dest, k, rfl, hp, halive, hc, hchild, rfl, rfl⟩)⟩)
  | @back i j' p q' dest t r k hp halive hc hchild hq' hr =>
    simp only [tick_acts, put_acts] at hq
    rcases getElem?_set_some hq with ⟨rfl, rfl⟩ | ⟨-, h⟩
    · exact .inr (.inr (.inr (.inr ⟨p, .invoke dest t, k, r, hp, halive, hc, rfl,
        Or.inl ⟨j', q', hchild, hq', hr, rfl⟩⟩)))
    · exact .inl h
  | @giveUp i p d t o k hp halive hc ho =>
    simp only [tick_acts, put_acts] at hq
    rcases getElem?_set_some hq with ⟨rfl, rfl⟩ | ⟨-, h⟩
    · exact .inr (.inr (.inr (.inr ⟨p, .invoke (some d) t, k, _, hp, halive, hc, rfl,
        Or.inr ⟨rfl, rfl, o, rfl⟩⟩)))
    · exact .inl h
  | deliver hj => exact .inl hq
  | restart a =>
    simp only [tick_acts, open_acts, crash] at hq
    rcases getElem?_append_one hq with h | ⟨rfl, rfl⟩
    · rw [List.getElem?_map, Option.map_eq_some_iff] at h
      obtain ⟨p, hp, rfl⟩ := h
      split
      · rename_i hnode
        exact .inr (.inr (.inr (.inl ⟨p, hp, rfl, by rw [hnode]⟩)))
      · exact .inl hp
    · exact .inr (.inl ⟨by simp, a, V.boot, none, rfl, .inr (.inl ⟨rfl, rfl, rfl⟩)⟩)

/-- **What the step of an activation does to the activations**: it gets an answer, or it starts
to wait for a callee. -/
theorem Step.moved {i : ℕ} {o : Outcome} (h : Step s (.step i o) s') :
    ∃ p c k, s.acts[i]? = some p ∧ p.alive = true ∧ p.prog = .call c k ∧
      ((∃ r, s'.acts = s.acts.set i (p.resume s.clock c r (k r))) ∨
        ∃ dest t, c = .invoke dest t ∧ p.child = none ∧ s'.acts =
          (s.acts ++ [s.opened (dest.getD p.node) t (some i)]).set i (p.await s.acts.length)) := by
  cases h with
  | @act _ p o dest a k hp halive hc ho =>
    refine ⟨p, .act dest a, k, hp, halive, hc, .inl ⟨s.answer (dest.getD p.node) a o, ?_⟩⟩
    rw [tick_acts, put_acts, transmit_acts]
  | spawn hp halive hc hchild => exact ⟨_, _, _, hp, halive, hc, .inr ⟨_, _, rfl, hchild, rfl⟩⟩
  | back hp halive hc hchild hq hr => exact ⟨_, _, _, hp, halive, hc, .inl ⟨_, rfl⟩⟩
  | giveUp hp halive hc ho => exact ⟨_, _, _, hp, halive, hc, .inl ⟨_, rfl⟩⟩

/-- **An action is answered** in the step in which it is called. -/
theorem Step.resumed {i : ℕ} {o : Outcome} (h : Step s (.step i o) s') {p : Activation S}
    (hp : s.acts[i]? = some p) {dest : Option S.Addr} {a : S.Act} {k : S.Ret a → Prog S S.Reply}
    (hc : p.prog = .call (.act dest a) k) : p.alive = true ∧
      ∃ r, s'.acts[i]? = some (p.resume s.clock (.act dest a) r (k r)) := by
  obtain ⟨p', c, k', hp', halive, hc', hmoved⟩ := h.moved
  obtain rfl := Option.some.inj (hp.symm.trans hp')
  obtain ⟨rfl, hk⟩ := Prog.call.inj (hc.symm.trans hc')
  obtain rfl := eq_of_heq hk
  rcases hmoved with ⟨r, hacts⟩ | ⟨_, _, heq, -⟩
  · refine ⟨halive, r, ?_⟩
    rw [hacts]
    exact set_self hp
  · cases heq

/-- **What a step does to the nodes**: nothing, or one node executes an action, or one node
restarts. -/
theorem Step.nodes (h : Step s l s') :
    (s.executed? l = none ∧ s'.nodes = s.nodes) ∨
    (∃ d a, s.executed? l = some (d, a) ∧
      s'.nodes = Function.update s.nodes d (V.act a (s.nodes d)).2) ∨
    ∃ a, l = .restart a ∧ s'.nodes = Function.update s.nodes a V.fresh := by
  cases h with
  | submit a t => exact .inl ⟨rfl, rfl⟩
  | @act i p o dest a k hp halive hc ho =>
    by_cases hex : o.Executed
    · refine .inr (.inl ⟨dest.getD p.node, a, ?_, ?_⟩)
      · exact executed?_of_executed hp hc hex
      · rw [tick_nodes, put_nodes, transmit_nodes_of_executed _ _ _ _ _ hex]
    · refine .inl ⟨(executed?_eq hp hc o).trans (if_neg hex), ?_⟩
      rw [tick_nodes, put_nodes, transmit_nodes_of_not_executed _ _ _ _ _ hex]
  | spawn hp halive hc hchild => exact .inl ⟨executed?_invoke hp hc _, rfl⟩
  | back hp halive hc hchild hq hr => exact .inl ⟨executed?_invoke hp hc _, rfl⟩
  | giveUp hp halive hc ho => exact .inl ⟨executed?_invoke hp hc _, rfl⟩
  | @deliver j d a hj => exact .inr (.inl ⟨d, a, hj, rfl⟩)
  | restart a => exact .inr (.inr ⟨a, rfl, rfl⟩)

/-- The node that executes an action. -/
theorem Step.node_executed (h : Step s l s') {d : S.Addr} {a : S.Act}
    (hex : s.executed? l = some (d, a)) : s'.nodes d = (V.act a (s.nodes d)).2 := by
  rcases h.nodes with ⟨hnone, -⟩ | ⟨d', a', hex', hnodes⟩ | ⟨d', rfl, -⟩
  · cases hnone.symm.trans hex
  · obtain ⟨rfl, rfl⟩ := Prod.mk.inj (Option.some.inj (hex.symm.trans hex'))
    rw [hnodes, Function.update_self]
  · cases hex

/-- **What a step does to one node.** -/
theorem Step.node (h : Step s l s') (d : S.Addr) :
    s'.nodes d = s.nodes d ∨
    (∃ a, s.executed? l = some (d, a) ∧ s'.nodes d = (V.act a (s.nodes d)).2) ∨
    (l = .restart d ∧ s'.nodes d = V.fresh) := by
  rcases h.nodes with ⟨-, hnodes⟩ | ⟨d', a, hex, hnodes⟩ | ⟨d', rfl, hnodes⟩ <;> rw [hnodes]
  · exact .inl rfl
  · by_cases hd : d = d'
    · subst hd
      rw [Function.update_self]
      exact .inr (.inl ⟨a, hex, rfl⟩)
    · rw [Function.update_of_ne hd]
      exact .inl rfl
  · by_cases hd : d = d'
    · subst hd
      rw [Function.update_self]
      exact .inr (.inr ⟨rfl, rfl⟩)
    · rw [Function.update_of_ne hd]
      exact .inl rfl

/-- **What a step executes** is noted, with the activation that calls it. -/
theorem Step.served (h : Step s l s') :
    (s.executed? l = none ∧ s'.served = s.served) ∨
    ∃ d a caller, s.executed? l = some (d, a) ∧
      s'.served = s.served ++ [⟨d, a, (V.act a (s.nodes d)).1, caller⟩] ∧
      ∀ i o, l = .step i o → caller = some i := by
  cases h with
  | submit a t => exact .inl ⟨rfl, rfl⟩
  | @act i p o dest a k hp halive hc ho =>
    have hexec : s.executed? (.step i o) =
        if o.Executed then some (dest.getD p.node, a) else none := executed?_eq hp hc o
    have hcaller : ∀ i' o', (.step i o : Label S) = .step i' o' → some i = some i' := by
      rintro i' o' heq
      obtain ⟨rfl, -⟩ := Label.step.inj heq
      rfl
    cases o with
    | delivered => exact .inr ⟨_, a, some i, hexec, rfl, hcaller⟩
    | replyLost => exact .inr ⟨_, a, some i, hexec, rfl, hcaller⟩
    | requestLost => exact .inl ⟨hexec, rfl⟩
    | late => exact .inl ⟨hexec, rfl⟩
  | spawn hp halive hc hchild => exact .inl ⟨executed?_invoke hp hc _, rfl⟩
  | back hp halive hc hchild hq hr => exact .inl ⟨executed?_invoke hp hc _, rfl⟩
  | giveUp hp halive hc ho => exact .inl ⟨executed?_invoke hp hc _, rfl⟩
  | @deliver j d a hj => exact .inr ⟨d, a, none, hj, rfl, nofun⟩
  | restart a => exact .inl ⟨rfl, rfl⟩

/-- What a step adds to what is found in the actions executed. -/
theorem Step.filterMap_served (h : Step s l s') {β : Type} (f : Served S → Option β) :
    (s.executed? l = none ∧ s'.served.filterMap f = s.served.filterMap f) ∨
    ∃ d a caller, s.executed? l = some (d, a) ∧
      s'.served.filterMap f = s.served.filterMap f ++
        (f ⟨d, a, (V.act a (s.nodes d)).1, caller⟩).toList ∧
      ∀ i o, l = .step i o → caller = some i := by
  rcases h.served with ⟨hex, heq⟩ | ⟨d, a, caller, hex, heq, hcaller⟩
  · exact .inl ⟨hex, by rw [heq]⟩
  · exact .inr ⟨d, a, caller, hex, by rw [heq, filterMap_concat], hcaller⟩

/-- The node `d` may be about to execute `a`: some activation calls it next, or it is in
flight. -/
def Requested (s : Net V) (d : S.Addr) (a : S.Act) : Prop :=
  (∃ (i : ℕ) (p : Activation S) (dest : Option S.Addr) (k : S.Ret a → Prog S S.Reply),
    s.acts[i]? = some p ∧ p.prog = .call (.act dest a) k ∧ d = dest.getD p.node) ∨
  (d, a) ∈ s.late

/-- **What a step executes** was requested. -/
theorem Step.executed (h : Step s l s') {d : S.Addr} {a : S.Act}
    (he : s.executed? l = some (d, a)) : s.Requested d a := by
  cases h with
  | submit a t => cases he
  | @act i p o dest a' k hp halive hc ho =>
    rw [executed?_eq hp hc] at he
    split at he
    · obtain ⟨rfl, rfl⟩ := Prod.mk.inj (Option.some.inj he)
      exact .inl ⟨i, p, dest, k, hp, hc, rfl⟩
    · cases he
  | spawn hp halive hc hchild => cases (executed?_invoke hp hc _).symm.trans he
  | back hp halive hc hchild hq hr => cases (executed?_invoke hp hc _).symm.trans he
  | giveUp hp halive hc ho => cases (executed?_invoke hp hc _).symm.trans he
  | @deliver j d a hj => exact .inr (List.mem_of_getElem? he)
  | restart a => cases he

omit [DecidableEq S.Addr] in
/-- An action that the step of an activation executes is its next call. -/
theorem executed?_step {i : ℕ} {o : Outcome} {d : S.Addr} {a : S.Act}
    (h : s.executed? (.step i o) = some (d, a)) :
    ∃ (p : Activation S) (dest : Option S.Addr) (k : S.Ret a → Prog S S.Reply),
      s.acts[i]? = some p ∧ p.prog = .call (.act dest a) k ∧ d = dest.getD p.node ∧ o.Executed := by
  obtain ⟨p, hp, h⟩ := Option.bind_eq_some_iff.1 h
  split at h
  · rename_i dest a' k hc
    split at h
    · rename_i hex
      obtain ⟨rfl, rfl⟩ := Prod.mk.inj (Option.some.inj h)
      exact ⟨p, dest, k, hp, hc, rfl, hex⟩
    · cases h
  · cases h

/-- **Who has an action executed**: the activation that calls it, which gets an answer, or
nobody, if it was in flight. -/
theorem Step.executed_by (h : Step s l s') {d : S.Addr} {a : S.Act}
    (he : s.executed? l = some (d, a)) :
    (∃ (i : ℕ) (o : Outcome) (p : Activation S) (dest : Option S.Addr)
      (k : S.Ret a → Prog S S.Reply) (r : S.Ret a), l = .step i o ∧ o.Executed ∧
      s.acts[i]? = some p ∧ p.prog = .call (.act dest a) k ∧ d = dest.getD p.node ∧
      s'.acts[i]? = some (p.resume s.clock (.act dest a) r (k r))) ∨
    (d, a) ∈ s.late := by
  cases h with
  | submit a t => cases he
  | @act i p o dest a' k hp halive hc ho =>
    rw [executed?_eq hp hc] at he
    split at he
    · rename_i hex
      obtain ⟨rfl, rfl⟩ := Prod.mk.inj (Option.some.inj he)
      refine .inl ⟨i, o, p, dest, k, s.answer (dest.getD p.node) a' o, rfl, hex, hp, hc, rfl, ?_⟩
      rw [tick_acts, put_acts, transmit_acts]
      exact set_self hp
    · cases he
  | spawn hp halive hc hchild => cases (executed?_invoke hp hc _).symm.trans he
  | back hp halive hc hchild hq hr => cases (executed?_invoke hp hc _).symm.trans he
  | giveUp hp halive hc ho => cases (executed?_invoke hp hc _).symm.trans he
  | deliver hj => exact .inr (List.mem_of_getElem? he)
  | restart a => cases he

/-- **What a step leaves in flight** was in flight or is a request whose caller gives up. -/
theorem Step.new_late (h : Step s l s') {m : S.Addr × S.Act} (hm : m ∈ s'.late) :
    m ∈ s.late ∨ ∃ (i : ℕ) (p : Activation S) (k : S.Ret m.2 → Prog S S.Reply) (r : S.Ret m.2),
      l = .step i .late ∧ s.acts[i]? = some p ∧ p.prog = .call (.act (some m.1) m.2) k ∧
      s'.acts[i]? = some (p.resume s.clock (.act (some m.1) m.2) r (k r)) := by
  cases h with
  | submit a t => exact .inl hm
  | @act i p o dest a k hp halive hc ho =>
    cases o with
    | delivered => exact .inl hm
    | replyLost => exact .inl hm
    | requestLost => exact .inl hm
    | late =>
      simp only [tick_late, put_late, transmit] at hm
      rcases List.mem_append.1 hm with h | h
      · exact .inl h
      · obtain rfl := List.mem_singleton.1 h
        obtain ⟨d, rfl⟩ := Option.isSome_iff_exists.1 (ho.resolve_right nofun)
        exact .inr ⟨i, p, k, _, rfl, hp, hc, set_self hp⟩
  | spawn hp halive hc hchild => exact .inl hm
  | back hp halive hc hchild hq hr => exact .inl hm
  | giveUp hp halive hc ho => exact .inl hm
  | deliver hj => exact .inl (List.mem_of_mem_eraseIdx hm)
  | restart a => exact .inl hm

/-- What a step leaves in flight was requested. -/
theorem Step.mem_late (h : Step s l s') {m : S.Addr × S.Act} (hm : m ∈ s'.late) :
    s.Requested m.1 m.2 := by
  rcases h.new_late hm with hm | ⟨i, p, k, -, -, hp, hc, -⟩
  · exact .inr hm
  · exact .inl ⟨i, p, some m.1, k, hp, hc, rfl⟩

/-- **What a step adds to the past of an activation**: the answer to its next call. -/
theorem Step.event (h : Step s l s') {j : ℕ} {q : Activation S} (hq : s'.acts[j]? = some q)
    {e : Event S} (he : e ∈ q.hist) :
    ∃ p, s.acts[j]? = some p ∧ q.node = p.node ∧ q.task = p.task ∧
      (e ∈ p.hist ∨ ∃ c k r, p.alive = true ∧ p.prog = .call c k ∧ e = ⟨c, r⟩ ∧
        s.Answers l j p c r) := by
  rcases h.activation hq with h | ⟨-, a, t, origin, rfl, -⟩ | ⟨p, hp, rfl, -⟩ |
    ⟨p, hp, rfl, -⟩ | ⟨p, c, k, r, hp, halive, hc, rfl, hans⟩
  · exact ⟨q, h, rfl, rfl, .inl he⟩
  · exact absurd he (by simp)
  · exact ⟨p, hp, rfl, rfl, .inl he⟩
  · exact ⟨p, hp, rfl, rfl, .inl he⟩
  · refine ⟨p, hp, rfl, rfl, ?_⟩
    rcases List.mem_append.1 he with he | he
    · exact .inl he
    · exact .inr ⟨c, k, r, halive, hc, List.mem_singleton.1 he, hans⟩

/-- Only the outcome `late` leaves something in flight. -/
theorem Step.late_subset (h : Step s l s') (hl : l.NoLate) : s'.late ⊆ s.late := by
  cases h with
  | submit a t => exact fun _ hm ↦ hm
  | @act i p o dest a k hp halive hc ho =>
    cases o with
    | late => exact absurd rfl hl
    | _ => exact fun _ hm ↦ hm
  | spawn hp halive hc hchild => exact fun _ hm ↦ hm
  | back hp halive hc hchild hq hr => exact fun _ hm ↦ hm
  | giveUp hp halive hc ho => exact fun _ hm ↦ hm
  | deliver hj => exact fun _ hm ↦ List.mem_of_mem_eraseIdx hm
  | restart a => exact fun _ hm ↦ hm

/-- What is sent to the node `d` is executed and answered at once. -/
def DeliversTo (d : S.Addr) (s : Net V) : Label S → Prop
  | .step i o => ∀ p ∈ s.acts[i]?, p.prog.CallsNode d → o = .delivered
  | _ => True

instance (d : S.Addr) (s : Net V) : DecidablePred (s.DeliversTo d)
  | .step i o =>
    inferInstanceAs (Decidable (∀ p ∈ s.acts[i]?, p.prog.CallsNode d → o = .delivered))
  | .submit _ _ | .deliver _ | .restart _ => inferInstanceAs (Decidable True)

omit [DecidableEq S.Addr] in
theorem deliversTo_of_prompt (h : l.Prompt) (d : S.Addr) : s.DeliversTo d l := by
  cases l with
  | step i o => exact fun _ _ _ ↦ h
  | _ => trivial

omit [DecidableEq S.Addr] in
/-- A call that is delivered was executed, and answered by its node. -/
theorem DeliversTo.executed {d : S.Addr} (hl : s.DeliversTo d l) {j : ℕ} {p : Activation S}
    {a : S.Act} {k : S.Ret a → Prog S S.Reply} {r : S.Ret a} (hp : s.acts[j]? = some p)
    (hc : p.prog = .call (.act (some d) a) k) (hans : s.Answers l j p (.act (some d) a) r) :
    s.executed? l = some (d, a) ∧ r = (V.act a (s.nodes d)).1 := by
  obtain ⟨o, rfl, -, rfl⟩ := hans
  obtain rfl : o = .delivered := hl p hp (by rw [hc]; exact rfl)
  exact ⟨executed?_of_executed hp hc (.inl rfl), rfl⟩

/-- When a step lets an activation return, it notes the time. -/
theorem Step.stop (h : Step s l s') {j : ℕ} {p q : Activation S} (hp : s.acts[j]? = some p)
    (hq : s'.acts[j]? = some q) {t : ℕ} (ht : q.stop = some t) :
    p.stop = some t ∨ t = s.clock := by
  rcases h.activation hq with hq | ⟨rfl, -⟩ | ⟨p', hp', rfl, -⟩ | ⟨p', hp', rfl, -⟩ |
    ⟨p', c, k, r, -, -, -, rfl, -⟩
  · obtain rfl := Option.some.inj (hp.symm.trans hq)
    exact .inl ht
  · exact absurd (lt_length hp) (Nat.lt_irrefl _)
  · obtain rfl := Option.some.inj (hp.symm.trans hp')
    exact .inl ht
  · obtain rfl := Option.some.inj (hp.symm.trans hp')
    exact .inl ht
  · obtain ⟨-, -, rfl⟩ := Option.map_eq_some_iff.1 ht
    exact .inr rfl

theorem Step.clock (h : Step s l s') : s'.clock = s.clock + 1 := by
  cases h <;> simp

/-- Whoever was started before its node restarts is dead afterwards. -/
theorem Step.dead_of_restart {d : S.Addr} (h : Step s (.restart d) s') {j : ℕ}
    {q : Activation S} (hj : j < s.acts.length) (hq : s'.acts[j]? = some q) (hnode : q.node = d) :
    q.alive = false := by
  cases h
  simp only [tick_acts, open_acts, crash] at hq
  rw [List.getElem?_append_left (by simpa using hj), List.getElem?_map] at hq
  obtain ⟨p, -, rfl⟩ := Option.map_eq_some_iff.1 hq
  split at hnode
  · rename_i hd
    rw [if_pos hd]
  · rename_i hd
    exact absurd hnode hd

/-- **What a step keeps of an activation**: who runs it, and its past. -/
theorem Step.keeps (h : Step s l s') {j : ℕ} {p : Activation S} (hp : s.acts[j]? = some p) :
    ∃ q, s'.acts[j]? = some q ∧ q.node = p.node ∧ q.task = p.task ∧ q.origin = p.origin ∧
      q.start = p.start ∧ p.hist <+: q.hist ∧
      ∀ r, p.Returned r → q.Returned r ∧ q.hist = p.hist ∧ q.stop = p.stop := by
  have hlt := lt_length hp
  have hlt' : j < s'.acts.length := by
    cases h <;> simp [crash] <;> omega
  obtain ⟨q, hq⟩ : ∃ q, s'.acts[j]? = some q := ⟨_, List.getElem?_eq_getElem hlt'⟩
  refine ⟨q, hq, ?_⟩
  rcases h.activation hq with h | ⟨rfl, -⟩ | ⟨p', hp', rfl, -⟩ | ⟨p', hp', rfl, -⟩ |
    ⟨p', c, k, r, hp', -, hc, rfl, -⟩
  · obtain rfl := Option.some.inj (hp.symm.trans h)
    exact ⟨rfl, rfl, rfl, rfl, List.prefix_rfl, fun r hr ↦ ⟨hr, rfl, rfl⟩⟩
  · exact absurd hlt (Nat.lt_irrefl _)
  · obtain rfl := Option.some.inj (hp.symm.trans hp')
    exact ⟨rfl, rfl, rfl, rfl, List.prefix_rfl, fun r hr ↦ ⟨hr, rfl, rfl⟩⟩
  · obtain rfl := Option.some.inj (hp.symm.trans hp')
    exact ⟨rfl, rfl, rfl, rfl, List.prefix_rfl, fun r hr ↦ ⟨hr, rfl, rfl⟩⟩
  · obtain rfl := Option.some.inj (hp.symm.trans hp')
    refine ⟨rfl, rfl, rfl, rfl, List.prefix_append _ _, fun r hr ↦ ?_⟩
    rw [Activation.Returned, hc] at hr
    cases hr

/-! ### Runs -/

/-- Every call has returned. -/
def Finished (s : Net V) : Prop := ∀ p ∈ s.acts, p.prog.result?.isSome

instance (s : Net V) : Decidable s.Finished :=
  inferInstanceAs (Decidable (∀ p ∈ s.acts, p.prog.result?.isSome))

omit [DecidableEq S.Addr] in
theorem Finished.returned (h : s.Finished) {p : Activation S} (hp : p ∈ s.acts) :
    ∃ r, p.Returned r := by
  obtain ⟨r, hr⟩ := Option.isSome_iff_exists.1 (h p hp)
  exact ⟨r, Prog.result?_eq_some_iff.1 hr⟩

/-- Some run all of whose steps satisfy `C` leads from one state to the other. -/
def Reach (C : Net V → Label S → Prop) : Net V → Net V → Prop :=
  ReflTransGen fun s s' ↦ ∃ l, C s l ∧ s.step l = some s'

variable {C : Net V → Label S → Prop} {s₀ : Net V}

/-- **Induction on runs.** -/
theorem Reach.invariant {I : Net V → Prop} (h : Reach C s₀ s) (hinit : I s₀)
    (hstep : ∀ s l s', Reach C s₀ s → Reach C s₀ s' → I s → C s l → Step s l s' → I s') :
    I s := by
  induction h with
  | refl => exact hinit
  | tail hr hs ih =>
    obtain ⟨l, hC, hl⟩ := hs
    exact hstep _ l _ hr (hr.tail ⟨l, hC, hl⟩) ih hC (.of_step hl)

/-- **Induction on runs, for the calls that were answered**: what holds of a call when it is
answered, and is kept by every step, holds of all calls in the past. -/
theorem Reach.answered (hinit : s₀.acts = []) {P : Net V → ℕ → Event S → Prop}
    (h : Reach C s₀ s)
    (hkeep : ∀ s l s', Reach C s₀ s →
      (∀ (j : ℕ) (p : Activation S), s.acts[j]? = some p → ∀ e ∈ p.hist, P s j e) → C s l →
      Step s l s' → ∀ (j : ℕ) (p : Activation S), s.acts[j]? = some p → ∀ e ∈ p.hist,
        P s j e → P s' j e)
    (hnew : ∀ s l s', Reach C s₀ s →
      (∀ (j : ℕ) (p : Activation S), s.acts[j]? = some p → ∀ e ∈ p.hist, P s j e) → C s l →
      Step s l s' → ∀ (j : ℕ) (p : Activation S) (c : Call S) (k : c.Ret → Prog S S.Reply)
        (r : c.Ret), s.acts[j]? = some p → p.alive = true → p.prog = .call c k →
        s.Answers l j p c r → P s' j ⟨c, r⟩) :
    ∀ (j : ℕ) (p : Activation S), s.acts[j]? = some p → ∀ e ∈ p.hist, P s j e := by
  refine h.invariant
    (I := fun s ↦ ∀ (j : ℕ) (p : Activation S), s.acts[j]? = some p → ∀ e ∈ p.hist, P s j e)
    ?_ ?_
  · intro j p hp
    rw [hinit] at hp
    simp at hp
  · intro s l s' hr _ ih hC hs j q hq e he
    obtain ⟨p, hp, -, -, he | ⟨c, k, r, halive, hc, rfl, hans⟩⟩ := hs.event hq he
    · exact hkeep s l s' hr ih hC hs j p hp e he (ih j p hp e he)
    · exact hnew s l s' hr ih hC hs j p c k r hp halive hc hans

theorem Reach.late_eq_nil (hlate : s₀.late = []) (hC : ∀ s l, C s l → l.NoLate)
    (h : Reach C s₀ s) : s.late = [] :=
  h.invariant (I := fun s ↦ s.late = []) hlate fun s l s' _ _ ih hl hs ↦ by
    have := hs.late_subset (hC s l hl)
    rw [ih] at this
    exact List.subset_nil.1 this

/-- Nothing is in flight to a node that gets what it is sent. -/
theorem Reach.late_ne {d : S.Addr} (hlate : s₀.late = []) (hC : ∀ s l, C s l → s.DeliversTo d l)
    (h : Reach C s₀ s) : ∀ m ∈ s.late, m.1 ≠ d := by
  refine h.invariant (I := fun s ↦ ∀ m ∈ s.late, m.1 ≠ d) (by simp [hlate]) ?_
  intro s l s' _ _ ih hl hs m hm
  rcases hs.new_late hm with hm | ⟨i, p, k, -, rfl, hp, hc, -⟩
  · exact ih m hm
  · rintro rfl
    have hlost : Outcome.late = .delivered := hC s _ hl p hp (by rw [hc]; exact rfl)
    cases hlost

/-- **What holds of all calls** holds of everything that is requested. -/
theorem Reach.requested (hlate : s₀.late = []) {P : S.Addr → S.Act → Prop}
    (hcall : ∀ s, Reach C s₀ s → ∀ (i : ℕ) (p : Activation S) dest a
      (k : S.Ret a → Prog S S.Reply), s.acts[i]? = some p → p.prog = .call (.act dest a) k →
        P (dest.getD p.node) a)
    (h : Reach C s₀ s) {d : S.Addr} {a : S.Act} (hreq : s.Requested d a) : P d a := by
  have hcases : ∀ s, Reach C s₀ s → (∀ m ∈ s.late, P m.1 m.2) → ∀ {d a},
      s.Requested d a → P d a := by
    rintro s hr hl d a (⟨i, p, dest, k, hp, hc, rfl⟩ | hm)
    · exact hcall s hr i p dest a k hp hc
    · exact hl _ hm
  refine hcases s h ?_ hreq
  refine h.invariant (I := fun s ↦ ∀ m ∈ s.late, P m.1 m.2) (by simp [hlate]) ?_
  intro s l s' hr _ ih _ hs m hm
  exact hcases s hr ih (hs.mem_late hm)

/-- The activation `j` has called the action `a` of the node `d`. -/
def CalledBy (s : Net V) (j : ℕ) (d : S.Addr) (a : S.Act) : Prop :=
  ∃ (p : Activation S) (dest : Option S.Addr) (r : S.Ret a), s.acts[j]? = some p ∧
    d = dest.getD p.node ∧ ⟨.act dest a, r⟩ ∈ p.hist

theorem CalledBy.mono (hs : Step s l s') {j : ℕ} {d : S.Addr} {a : S.Act}
    (h : s.CalledBy j d a) : s'.CalledBy j d a := by
  obtain ⟨p, dest, r, hp, hd, hmem⟩ := h
  obtain ⟨p', hp', hnode, -, -, -, hhist, -⟩ := hs.keeps hp
  exact ⟨p', dest, r, hp', by rw [hnode, hd], hhist.subset hmem⟩

/-- What is in flight was called. -/
theorem Reach.calledBy_of_late (hlate : s₀.late = []) (h : Reach C s₀ s) :
    ∀ m ∈ s.late, ∃ j, s.CalledBy j m.1 m.2 := by
  refine h.invariant (I := fun s ↦ ∀ m ∈ s.late, ∃ j, s.CalledBy j m.1 m.2) (by simp [hlate]) ?_
  intro s l s' _ _ ih _ hs m hm
  rcases hs.new_late hm with hm | ⟨i, p, k, r, -, -, -, hp'⟩
  · exact (ih m hm).imp fun _ hj ↦ hj.mono hs
  · exact ⟨i, _, some m.1, r, hp', rfl, by simp⟩

/-- **What a step executes** was called, at the latest in this step. -/
theorem Reach.calledBy_of_executed (hlate : s₀.late = []) (h : Reach C s₀ s) (hs : Step s l s')
    {d : S.Addr} {a : S.Act} (hex : s.executed? l = some (d, a)) : ∃ j, s'.CalledBy j d a := by
  rcases hs.executed_by hex with ⟨i, o, p, dest, k, r, -, -, -, -, rfl, hp'⟩ | hm
  · exact ⟨i, _, dest, r, hp', rfl, by simp⟩
  · exact (h.calledBy_of_late hlate _ hm).imp fun _ hj ↦ hj.mono hs

/-- What has been executed was called. -/
theorem Reach.calledBy_of_served (hlate : s₀.late = []) (hserved : s₀.served = [])
    (h : Reach C s₀ s) : ∀ e ∈ s.served, ∃ j, s.CalledBy j e.node e.act := by
  refine h.invariant (I := fun s ↦ ∀ e ∈ s.served, ∃ j, s.CalledBy j e.node e.act)
    (by simp [hserved]) ?_
  intro s l s' hr _ ih _ hs e he
  rcases hs.served with ⟨-, heq⟩ | ⟨d, a, caller, hex, heq, -⟩
  · exact (ih e (heq ▸ he)).imp fun _ hj ↦ hj.mono hs
  · rw [heq] at he
    rcases List.mem_append.1 he with he | he
    · exact (ih e he).imp fun _ hj ↦ hj.mono hs
    · obtain rfl := List.mem_singleton.1 he
      exact hr.calledBy_of_executed hlate hs hex

/-- Who has noted the time of its return has returned. -/
theorem Reach.returned_of_stop (hinit : s₀.acts = []) (h : Reach C s₀ s) {j : ℕ}
    {p : Activation S} (hp : s.acts[j]? = some p) {t : ℕ} (ht : p.stop = some t) :
    ∃ r, p.Returned r := by
  refine h.invariant (I := fun s ↦ ∀ (j : ℕ) (p : Activation S), s.acts[j]? = some p →
    ∀ t, p.stop = some t → ∃ r, p.Returned r) (by simp [hinit]) ?_ j p hp t ht
  intro s l s' _ _ ih _ hs j p hp t ht
  rcases hs.activation hp with hp | ⟨-, a, t, origin, rfl, -⟩ | ⟨p', hp', rfl, -⟩ |
    ⟨p', hp', rfl, -⟩ | ⟨p', c, k, r, -, -, -, rfl, -⟩
  · exact ih j p hp t ht
  · cases ht
  · exact ih j p' hp' t ht
  · exact ih j p' hp' t ht
  · obtain ⟨r, hr, -⟩ := Option.map_eq_some_iff.1 ht
    exact ⟨r, Prog.result?_eq_some_iff.1 hr⟩

/-- Activations start in the past. -/
theorem Reach.start_le (hinit : s₀.acts = []) (h : Reach C s₀ s) {j : ℕ} {p : Activation S}
    (hp : s.acts[j]? = some p) : p.start ≤ s.clock := by
  refine h.invariant (I := fun s ↦ ∀ (j : ℕ) (p : Activation S), s.acts[j]? = some p →
    p.start ≤ s.clock) ?_ ?_ j p hp
  · intro j p hp
    rw [hinit] at hp
    simp at hp
  · intro s l s' _ _ ih _ hs j p hp
    rw [hs.clock]
    rcases hs.activation hp with hp | ⟨-, a, t, origin, rfl, -⟩ | ⟨p', hp', rfl, -⟩ |
      ⟨p', hp', rfl, -⟩ | ⟨p', c, k, r, hp', -, -, rfl, -⟩
    · exact Nat.le_succ_of_le (ih j p hp)
    · exact Nat.le_succ _
    · exact Nat.le_succ_of_le (ih j p' hp')
    · exact Nat.le_succ_of_le (ih j p' hp')
    · exact Nat.le_succ_of_le (ih j p' hp')

/-- Whoever called an activation was there before it. -/
theorem Reach.origin_lt (hinit : s₀.acts = []) (h : Reach C s₀ s) {j i : ℕ} {p : Activation S}
    (hp : s.acts[j]? = some p) (horigin : p.origin = some i) : i < j := by
  refine h.invariant (I := fun s ↦ ∀ (j : ℕ) (p : Activation S), s.acts[j]? = some p →
    p.origin = some i → i < j) ?_ ?_ j p hp horigin
  · intro j p hp
    rw [hinit] at hp
    simp at hp
  · intro s l s' _ _ ih _ hs j p hp horigin
    rcases hs.activation hp with hp | ⟨rfl, a, t, origin, rfl, hopen⟩ | ⟨p', hp', rfl, -⟩ |
      ⟨p', hp', rfl, -⟩ | ⟨p', c, k, r, hp', -, -, rfl, -⟩
    · exact ih j p hp horigin
    · rcases hopen with ⟨-, rfl⟩ | ⟨-, -, rfl⟩ | ⟨i', p', dest, k, -, hp', -, -, -, -, rfl⟩
      · cases horigin
      · cases horigin
      · obtain rfl := Option.some.inj horigin
        exact lt_length hp'
    · exact ih j p' hp' horigin
    · exact ih j p' hp' horigin
    · exact ih j p' hp' horigin

theorem Reach.mono {C' : Net V → Label S → Prop} (hC : ∀ s l, C s l → C' s l)
    (h : Reach C s₀ s) : Reach C' s₀ s :=
  ReflTransGen.mono (fun _ _ ⟨l, hl, hs⟩ ↦ ⟨l, hC _ l hl, hs⟩) _ _ h

/-- A condition that holds of all reachable states may be used at every step of a run. -/
theorem Reach.strengthen {I : Net V → Prop} (hI : ∀ s, Reach C s₀ s → I s)
    (h : Reach C s₀ s) : Reach (fun s l ↦ C s l ∧ I s) s₀ s := by
  induction h with
  | refl => exact .refl
  | tail hr hs ih =>
    obtain ⟨l, hC, hl⟩ := hs
    exact ih.tail ⟨l, ⟨hC, hI _ hr⟩, hl⟩

/-- Take the steps with the given labels, as long as each satisfies `C`. -/
def steps (C : Net V → Label S → Prop) [∀ s l, Decidable (C s l)] :
    Net V → List (Label S) → Option (Net V)
  | s, [] => some s
  | s, l :: ls => if C s l then (s.step l).bind (steps C · ls) else none

theorem Reach.of_steps [∀ s l, Decidable (C s l)] :
    ∀ {ls : List (Label S)} {s s' : Net V}, s.steps C ls = some s' → Reach C s s'
  | [], _, _, h => by
    obtain rfl := Option.some.inj h
    exact .refl
  | l :: ls, s, s', h => by
    rw [steps] at h
    split at h
    · rename_i hC
      obtain ⟨s₁, h₁, h⟩ := Option.bind_eq_some_iff.1 h
      have hstep : ∃ l, C s l ∧ s.step l = some s₁ := ⟨l, hC, h₁⟩
      exact ReflTransGen.head hstep (Reach.of_steps h)
    · cases h

/-- A state that some steps lead to, found by taking them. -/
theorem Reach.exists_of_steps [∀ s l, Decidable (C s l)] {ls : List (Label S)}
    {P : Net V → Prop} [DecidablePred P] (h : (s.steps C ls).any (fun s' ↦ P s') = true) :
    ∃ s', Reach C s s' ∧ P s' := by
  rcases hs' : s.steps C ls with _ | s'
  · rw [hs'] at h
    cases h
  · rw [hs', Option.any_some] at h
    exact ⟨s', .of_steps hs', of_decide_eq_true h⟩

/-- Activations keep their identity along a run, and their past. -/
theorem Reach.keeps (h : Reach C s₀ s) {j : ℕ} {p : Activation S} (hp : s₀.acts[j]? = some p) :
    ∃ q, s.acts[j]? = some q ∧ q.node = p.node ∧ q.task = p.task ∧ q.origin = p.origin ∧
      q.start = p.start ∧ p.hist <+: q.hist ∧
      ∀ r, p.Returned r → q.Returned r ∧ q.hist = p.hist ∧ q.stop = p.stop := by
  refine h.invariant (I := fun s ↦ ∃ q, s.acts[j]? = some q ∧ q.node = p.node ∧
    q.task = p.task ∧ q.origin = p.origin ∧ q.start = p.start ∧ p.hist <+: q.hist ∧
    ∀ r, p.Returned r → q.Returned r ∧ q.hist = p.hist ∧ q.stop = p.stop)
    ⟨p, hp, rfl, rfl, rfl, rfl, List.prefix_rfl, fun r hr ↦ ⟨hr, rfl, rfl⟩⟩ ?_
  rintro s l s' - - ⟨q, hq, h1, h2, h3, h4, h5, h6⟩ - hs
  obtain ⟨q', hq', g1, g2, g3, g4, g5, g6⟩ := hs.keeps hq
  refine ⟨q', hq', g1.trans h1, g2.trans h2, g3.trans h3, g4.trans h4, h5.trans g5,
    fun r hr ↦ ?_⟩
  obtain ⟨a1, a2, a3⟩ := h6 r hr
  obtain ⟨b1, b2, b3⟩ := g6 r a1
  exact ⟨b1, b2.trans a2, b3.trans a3⟩

/-- **The callee an activation waits for** runs the procedure it called. -/
theorem Reach.child (hinit : s₀.acts = []) (h : Reach C s₀ s) {i j : ℕ} {p : Activation S}
    (hp : s.acts[i]? = some p) (hchild : p.child = some j) :
    ∃ dest t k q, p.prog = .call (.invoke dest t) k ∧ s.acts[j]? = some q ∧ q.task = t ∧
      q.node = dest.getD p.node ∧ q.origin = some i := by
  refine h.invariant (I := fun s ↦ ∀ i j p, s.acts[i]? = some p → p.child = some j →
    ∃ dest t k q, p.prog = .call (.invoke dest t) k ∧ s.acts[j]? = some q ∧ q.task = t ∧
      q.node = dest.getD p.node ∧ q.origin = some i) ?_ ?_ i j p hp hchild
  · intro i j p hp
    rw [hinit] at hp
    simp at hp
  · intro s l s' _ _ ih _ hs i j p hp hchild
    -- the callee of an activation that has not moved is still there after the step
    have hkeep : ∀ p₀, s.acts[i]? = some p₀ → p₀.child = some j → p₀.prog = p.prog →
        p₀.node = p.node → ∃ dest t k q, p.prog = .call (.invoke dest t) k ∧
          s'.acts[j]? = some q ∧ q.task = t ∧ q.node = dest.getD p.node ∧
          q.origin = some i := by
      intro p₀ hp₀ hchild₀ hprog hnode
      obtain ⟨dest, t, k, q, hc, hq, htask, hqnode, horigin⟩ := ih i j p₀ hp₀ hchild₀
      obtain ⟨q', hq', hnode', htask', horigin', -⟩ := hs.keeps hq
      exact ⟨dest, t, k, q', hprog ▸ hc, hq', htask'.trans htask,
        hnode'.trans (hnode ▸ hqnode), horigin'.trans horigin⟩
    rcases hs.activation hp with hp | ⟨-, a, t, origin, rfl, -⟩ |
      ⟨p₀, hp₀, rfl, -, -, -, dest, t, k, hc, hnew⟩ | ⟨p₀, hp₀, rfl, -⟩ |
      ⟨p₀, c, k, r, -, -, -, rfl, -⟩
    · exact hkeep p hp hchild rfl rfl
    · cases hchild
    · obtain rfl := Option.some.inj hchild
      exact ⟨dest, t, k, _, hc, hnew, rfl, rfl, rfl⟩
    · exact hkeep p₀ hp₀ hchild rfl rfl
    · cases hchild

/-- **The answer to a procedure call** is that of a callee, or the call failed. -/
theorem Reach.answers_invoke (hinit : s₀.acts = []) (h : Reach C s₀ s) {j : ℕ}
    {p : Activation S} (hp : s.acts[j]? = some p) {dest : Option S.Addr} {t : S.Task}
    {k : S.Reply → Prog S S.Reply} (hc : p.prog = .call (.invoke dest t) k) {r : S.Reply}
    (hans : s.Answers l j p (.invoke dest t) r) :
    (∃ (i : ℕ) (q : Activation S), s.acts[i]? = some q ∧ q.task = t ∧ q.node = dest.getD p.node ∧
      q.origin = some j ∧ q.Returned r) ∨ (dest.isSome ∧ r = V.failed) := by
  rcases hans with ⟨i, q, hchild, hq, hr, -⟩ | ⟨hdest, hfail, -⟩
  · obtain ⟨dest', t', k', q', hc', hq', htask, hnode, horigin⟩ := h.child hinit hp hchild
    obtain rfl := Option.some.inj (hq.symm.trans hq')
    obtain ⟨hcall, -⟩ := Prog.call.inj (hc.symm.trans hc')
    obtain ⟨rfl, rfl⟩ := Call.invoke.inj hcall
    exact .inl ⟨i, q, hq, htask, hnode, horigin, hr⟩
  · exact .inr ⟨hdest, hfail⟩

/-- **A procedure call in the past** was answered by a callee that has returned. -/
theorem Reach.invoked (hinit : s₀.acts = []) (h : Reach C s₀ s) {i : ℕ} {p : Activation S}
    (hp : s.acts[i]? = some p) {dest : Option S.Addr} {t : S.Task} {r : S.Reply}
    (he : ⟨.invoke dest t, r⟩ ∈ p.hist) :
    (∃ (j : ℕ) (q : Activation S), s.acts[j]? = some q ∧ q.task = t ∧
      q.node = dest.getD p.node ∧ q.origin = some i ∧ q.Returned r) ∨
    (dest.isSome ∧ r = V.failed) := by
  refine h.invariant (I := fun s ↦ ∀ i p, s.acts[i]? = some p → ⟨.invoke dest t, r⟩ ∈ p.hist →
    (∃ (j : ℕ) (q : Activation S), s.acts[j]? = some q ∧ q.task = t ∧
      q.node = dest.getD p.node ∧ q.origin = some i ∧ q.Returned r) ∨
    (dest.isSome ∧ r = V.failed)) ?_ ?_ i p hp he
  · intro i p hp
    rw [hinit] at hp
    simp at hp
  · intro s l s' hr _ ih _ hs i p hp he
    obtain ⟨p₀, hp₀, hnode, -, hcase⟩ := hs.event hp he
    have hcallee : (∃ (j : ℕ) (q : Activation S), s.acts[j]? = some q ∧ q.task = t ∧
        q.node = dest.getD p₀.node ∧ q.origin = some i ∧ q.Returned r) ∨
        (dest.isSome ∧ r = V.failed) := by
      rcases hcase with he | ⟨c, k, r', -, hc, heq, hans⟩
      · exact ih i p₀ hp₀ he
      · obtain ⟨rfl, heq⟩ := Sigma.mk.inj heq
        obtain rfl := eq_of_heq heq
        exact hr.answers_invoke hinit hp₀ hc hans
    refine hcallee.imp_left ?_
    rintro ⟨j, q, hq, htask, hqnode, horigin, hret⟩
    obtain ⟨q', hq', hnode', htask', horigin', -, -, hfin⟩ := hs.keeps hq
    exact ⟨j, q', hq', htask'.trans htask, by rw [hnode', hqnode, hnode],
      horigin'.trans horigin, (hfin r hret).1⟩

end Net

/-! ### Contracts for procedures -/

/-- What every procedure promises, and what it relies on. -/
structure Contract (V : Service S) where
  /-- What answers are relied on to satisfy. -/
  rely : ∀ c : Call S, c.Ret → Prop
  /-- Which calls a procedure makes after a history. -/
  emits : S.Addr → S.Task → List (Event S) → Call S → Prop
  /-- What a procedure returns after a history. -/
  returns : S.Addr → S.Task → List (Event S) → S.Reply → Prop
  /-- Executed actions answer as relied on, -/
  rely_act : ∀ dest a st, rely (.act dest a) (V.act a st).1
  /-- and so do failed ones; -/
  rely_lost : ∀ dest a, rely (.act dest a) (V.lost a)
  /-- nothing is relied on of procedures. -/
  rely_invoke : ∀ dest t r, rely (.invoke dest t) r
  /-- The programs keep their promises. -/
  body_sat : ∀ a t, Sat rely (emits a t) (returns a t) (V.body a t) []

namespace Contract

variable (K : Contract V)

/-- The past of an activation obeys the contract, and so does the rest of its program. -/
structure Lawful (p : Activation S) : Prop where
  past : ∀ h₁ c r h₂, p.hist = h₁ ++ ⟨c, r⟩ :: h₂ → K.emits p.node p.task h₁ c ∧ K.rely c r
  future : Sat K.rely (K.emits p.node p.task) (K.returns p.node p.task) p.prog p.hist

variable {K}

/-- The next call of a lawful activation is one its contract allows. -/
theorem Lawful.emits {p : Activation S} (h : K.Lawful p) {c : Call S}
    {k : c.Ret → Prog S S.Reply} (hc : p.prog = .call c k) :
    K.emits p.node p.task p.hist c := by
  have := h.future
  rw [hc] at this
  exact this.1

/-- The result of a lawful activation is one its contract allows. -/
theorem Lawful.returns {p : Activation S} (h : K.Lawful p) {r : S.Reply} (hr : p.Returned r) :
    K.returns p.node p.task p.hist r := by
  have := h.future
  rw [show p.prog = .ret r from hr] at this
  exact this

/-- A call in the past of a lawful activation was allowed when it was made. -/
theorem Lawful.emits_of_mem {p : Activation S} (h : K.Lawful p) {c : Call S} {r : c.Ret}
    (hmem : ⟨c, r⟩ ∈ p.hist) :
    ∃ h₁, h₁ <+: p.hist ∧ K.emits p.node p.task h₁ c ∧ K.rely c r := by
  obtain ⟨h₁, h₂, heq⟩ := List.append_of_mem hmem
  exact ⟨h₁, heq ▸ List.prefix_append _ _, h.past h₁ c r h₂ heq⟩

variable {C : Net V → Label S → Prop} {s₀ s : Net V}

theorem rely_answer (K : Contract V) (s : Net V) (dest : Option S.Addr) (d : S.Addr)
    (a : S.Act) (o : Outcome) : K.rely (.act dest a) (s.answer d a o) := by
  cases o with
  | delivered => exact K.rely_act dest a _
  | requestLost => exact K.rely_lost dest a
  | replyLost => exact K.rely_lost dest a
  | late => exact K.rely_lost dest a

theorem Lawful.resume {p : Activation S} (h : K.Lawful p) {c : Call S}
    {k : c.Ret → Prog S S.Reply} (hc : p.prog = .call c k) {r : c.Ret} (hr : K.rely c r)
    (now : ℕ) : K.Lawful (p.resume now c r (k r)) where
  past h₁ c' r' h₂ heq := by
    rw [Activation.resume_hist] at heq
    rcases List.eq_nil_or_concat h₂ with rfl | ⟨h₂', e, rfl⟩
    · -- the new event itself
      obtain ⟨rfl, hev⟩ := List.append_inj' heq rfl
      obtain ⟨rfl, hev⟩ := Sigma.mk.inj (List.cons.inj hev).1
      obtain rfl := eq_of_heq hev
      exact ⟨h.emits hc, hr⟩
    · -- an older one
      rw [List.concat_eq_append, ← List.cons_append, ← List.append_assoc] at heq
      obtain ⟨heq, -⟩ := List.append_inj' heq rfl
      exact h.past h₁ c' r' h₂' heq
  future := by
    have := h.future
    rw [hc] at this
    exact this.2 r hr

/-- **Contracts hold along runs.** -/
theorem lawful [DecidableEq S.Addr] (K : Contract V) (hinit : s₀.acts = []) (h : Net.Reach C s₀ s) :
    ∀ (j : ℕ) (q : Activation S), s.acts[j]? = some q → K.Lawful q := by
  refine h.invariant (I := fun s ↦ ∀ j q, s.acts[j]? = some q → K.Lawful q) ?_ ?_
  · intro j q hq
    rw [hinit] at hq
    simp at hq
  · intro s l s' _ _ ih _ hs j q hq
    rcases hs.activation hq with h | ⟨-, a, t, origin, rfl, -⟩ | ⟨p, hp, rfl, -⟩ |
      ⟨p, hp, rfl, -⟩ | ⟨p, c, k, r, hp, -, hc, rfl, hans⟩
    · exact ih j q h
    · exact ⟨fun h₁ c r h₂ heq ↦ by simp at heq, K.body_sat a t⟩
    · exact ⟨(ih j p hp).past, (ih j p hp).future⟩
    · exact ⟨(ih j p hp).past, (ih j p hp).future⟩
    · refine (ih j p hp).resume hc ?_ _
      cases c with
      | act dest a =>
        obtain ⟨o, -, -, rfl⟩ := hans
        exact K.rely_answer s dest _ a o
      | invoke dest t => exact K.rely_invoke dest t r

end Contract

end Rpc
