import Mathlib.Algebra.Ring.Nat
import ReplicatedDB.Rpc.Run

/-!
# Counting requests

The requests that the procedures of a network have sent can be read off their histories
(`Net.sent`), and a step adds the one it sends (`Step.sent`). Every request is accounted for: what
was sent to a node was executed there, or is in flight, or was lost (`Step.account`).

A loop that sends the same request to one node after the other is a broadcast. What it leaves in
the history, and its result, are given by the answers alone (`Sat.broadcast`).
-/

namespace Rpc

variable {S : Sig} {V : Service S}

/-- A request sent over the network. -/
structure Message (S : Sig) where
  source : S.Addr
  dest : S.Addr
  act : S.Act

/-- What a node sends when it makes the call. -/
def Call.message? (me : S.Addr) : Call S → Option (Message S)
  | .act (some d) a => some ⟨me, d, a⟩
  | _ => none

/-- What a node sends when it runs the program for one step. -/
def Prog.message? {α : Type} (me : S.Addr) : Prog S α → Option (Message S)
  | .ret _ => none
  | .call c _ => c.message? me

/-- The requests an activation has sent, oldest first. -/
def Activation.messages (p : Activation S) : List (Message S) :=
  p.hist.filterMap fun e ↦ e.1.message? p.node

/-- The node to which the call sends a request of the kind `K`. -/
def Call.recipient? (K : S.Act → Bool) : Call S → Option S.Addr
  | .act (some d) a => if K a then some d else none
  | _ => none

/-- The nodes to which requests of the kind `K` were sent, oldest first. -/
def recipients (K : S.Act → Bool) (h : List (Event S)) : List S.Addr :=
  h.filterMap fun e ↦ e.1.recipient? K

theorem recipients_append (K : S.Act → Bool) (h h' : List (Event S)) :
    recipients K (h ++ h') = recipients K h ++ recipients K h' := List.filterMap_append

/-- What an activation has sent, by kind and destination. -/
theorem Activation.countP_messages (p : Activation S) (K : S.Act → Bool)
    (Q : S.Addr → S.Addr → Bool) :
    p.messages.countP (fun m ↦ Q m.source m.dest && K m.act) =
      (recipients K p.hist).countP (Q p.node) := by
  rw [messages, recipients]
  induction p.hist with
  | nil => rfl
  | cons e h ih =>
    obtain ⟨⟨_ | d, a⟩ | ⟨dest, t⟩, r⟩ := e
    · exact ih
    · rw [List.filterMap_cons_some (f := fun e : Event S ↦ e.1.message? p.node)
        (b := ⟨p.node, d, a⟩) rfl, List.countP_cons, ih]
      have hrec : (⟨.act (some d) a, r⟩ : Event S).1.recipient? K =
          if K a then some d else none := rfl
      by_cases hK : K a = true
      · rw [List.filterMap_cons_some (f := fun e : Event S ↦ e.1.recipient? K)
          (hrec.trans (if_pos hK)), List.countP_cons, hK, Bool.and_true]
      · rw [List.filterMap_cons_none (f := fun e : Event S ↦ e.1.recipient? K)
          (hrec.trans (if_neg hK)), Bool.eq_false_iff.2 hK, Bool.and_false,
          if_neg Bool.false_ne_true, Nat.add_zero]
    · exact ih

/-! ### Broadcasts -/

/-- The same request to one node after the other, with their answers. -/
def exchange (a : S.Act) (xs : List (S.Addr × S.Ret a)) : List (Event S) :=
  xs.map fun x ↦ ⟨.act (some x.1) a, x.2⟩

@[simp] theorem length_exchange (a : S.Act) (xs : List (S.Addr × S.Ret a)) :
    (exchange a xs).length = xs.length := List.length_map _

theorem recipients_exchange (K : S.Act → Bool) (a : S.Act) (xs : List (S.Addr × S.Ret a)) :
    recipients K (exchange a xs) = if K a then xs.map Prod.fst else [] := by
  rw [recipients, exchange, List.filterMap_map]
  split
  · rename_i hK
    rw [← List.filterMap_eq_map']
    exact List.filterMap_congr fun x _ ↦ if_pos hK
  · rename_i hK
    exact List.filterMap_eq_nil_iff.2 fun x _ ↦ if_neg hK

theorem exchange_append_one (a : S.Act) (xs : List (S.Addr × S.Ret a)) (d : S.Addr) (x : S.Ret a) :
    exchange a xs ++ [⟨.act (some d) a, x⟩] = exchange a (xs ++ [(d, x)]) := by
  rw [exchange, exchange, List.map_append, List.map_singleton]

/-- **A broadcast**: its result is computed from the answers. -/
theorem Sat.broadcast {β : Type} {rely : ∀ c : Call S, c.Ret → Prop}
    {emits : List (Event S) → Call S → Prop} {returns : List (Event S) → β → Prop} (a : S.Act)
    (f : β → S.Addr → S.Ret a → β) (nodes : List S.Addr) (b : β) (h : List (Event S))
    (hemits : ∀ xs d rest, xs.map Prod.fst ++ d :: rest = nodes →
      emits (h ++ exchange a xs) (.act (some d) a))
    (hret : ∀ xs, xs.map Prod.fst = nodes →
      returns (h ++ exchange a xs) (xs.foldl (fun b x ↦ f b x.1 x.2) b)) :
    Sat rely emits returns (nodes.foldlM (fun b d ↦ do
      let x ← Prog.send d a
      pure (f b d x)) b) h := by
  refine (Sat.foldlM (fun rest b' h' ↦ ∃ xs, xs.map Prod.fst ++ rest = nodes ∧
    h' = h ++ exchange a xs ∧ b' = xs.foldl (fun b x ↦ f b x.1 x.2) b) ?_ nodes b h
      ⟨[], rfl, (List.append_nil h).symm, rfl⟩).mono ?_
  · -- one more node
    rintro d rest b' h' ⟨xs, hxs, rfl, rfl⟩
    refine ⟨hemits xs d rest hxs, fun x _ ↦ ⟨xs ++ [(d, x)], ?_, ?_, ?_⟩⟩
    · rw [List.map_append, List.append_assoc]
      exact hxs
    · rw [List.append_assoc, exchange_append_one]
    · rw [List.foldl_append]
      rfl
  · rintro h' b' ⟨xs, hxs, rfl, rfl⟩
    exact hret xs (by rwa [List.append_nil] at hxs)

/-- ... and it makes one call for each node. -/
theorem Sat.broadcast_of_length {β : Type} {rely : ∀ c : Call S, c.Ret → Prop}
    {returns : List (Event S) → β → Prop} {bound : ℕ} (a : S.Act) (f : β → S.Addr → S.Ret a → β)
    {nodes : List S.Addr} {b : β} {h : List (Event S)} (hlen : h.length + nodes.length ≤ bound + 1)
    (hret : ∀ xs, xs.map Prod.fst = nodes →
      returns (h ++ exchange a xs) (xs.foldl (fun b x ↦ f b x.1 x.2) b)) :
    Sat rely (fun h _ ↦ h.length ≤ bound) returns (nodes.foldlM (fun b d ↦ do
      let x ← Prog.send d a
      pure (f b d x)) b) h := by
  refine Sat.broadcast a f nodes b h (fun xs d rest hxs ↦ ?_) hret
  have hsplit := congrArg List.length hxs
  rw [List.length_append, List.length_map, List.length_cons] at hsplit
  rw [List.length_append, length_exchange]
  omega

/-! ### Sums over the activations -/

/-- A sum over a list changes with one of its elements. -/
theorem sum_map_set {α : Type} (f : α → ℕ) {a b : α} :
    ∀ {l : List α} {i : ℕ}, l[i]? = some a → ((l.set i b).map f).sum + f a = (l.map f).sum + f b
  | c :: l, 0, h => by
    obtain rfl : c = a := Option.some.inj h
    rw [List.set_cons_zero, List.map_cons, List.map_cons, List.sum_cons, List.sum_cons]
    omega
  | c :: l, i + 1, h => by
    have hrest := sum_map_set f (l := l) (b := b) (i := i) h
    rw [List.set_cons_succ, List.map_cons, List.map_cons, List.sum_cons, List.sum_cons]
    omega

/-- A sum that counts. -/
theorem sum_map_ite {α : Type} (P : α → Bool) (n : ℕ) :
    ∀ l : List α, (l.map fun a ↦ if P a then n else 0).sum = n * l.countP P
  | [] => rfl
  | a :: l => by
    rw [List.map_cons, List.sum_cons, sum_map_ite P n l, List.countP_cons, Nat.mul_add,
      Nat.add_comm]
    split
    · rw [Nat.mul_one]
    · rw [Nat.mul_zero]

/-- What is taken out of a list, and what stays. -/
theorem countP_eraseIdx_add {α : Type} (P : α → Bool) {a : α} :
    ∀ {l : List α} {i : ℕ}, l[i]? = some a →
      [a].countP P + (l.eraseIdx i).countP P = l.countP P
  | c :: l, 0, h => by
    obtain rfl : c = a := Option.some.inj h
    rw [List.eraseIdx_cons_zero, ← List.countP_append, List.singleton_append]
  | c :: l, i + 1, h => by
    have hrest := countP_eraseIdx_add P (l := l) (i := i) h
    rw [List.eraseIdx_cons_succ, List.countP_cons (l := l.eraseIdx i), ← Nat.add_assoc, hrest,
      List.countP_cons]

/-! ### Requests in a network -/

namespace Net

/-- The number of requests sent so far that satisfy `P`. -/
def sent (P : Message S → Bool) (s : Net V) : ℕ := (s.acts.map fun p ↦ p.messages.countP P).sum

/-- The request that a step sends. -/
def sends? (s : Net V) : Label S → Option (Message S)
  | .step i _ => s.acts[i]?.bind fun p ↦ p.prog.message? p.node
  | _ => none

/-- The request that a node executes in a step. -/
def receives? (s : Net V) : Label S → Option (S.Addr × S.Act)
  | .step i o => if o.Executed then (s.sends? (.step i o)).map fun m ↦ (m.dest, m.act) else none
  | .deliver j => s.late[j]?
  | _ => none

end Net

/-- No request is lost. -/
def Label.Lossless : Label S → Prop
  | .step _ o => o ≠ .requestLost
  | _ => True

instance : (l : Label S) → Decidable l.Lossless
  | .step _ o => inferInstanceAs (Decidable (o ≠ .requestLost))
  | .submit _ _ | .deliver _ | .restart _ => inferInstanceAs (Decidable True)

namespace Net

section Simp

variable (P : Message S → Bool) (s : Net V) (d : S.Addr) (t : S.Task) (c : Option ℕ) (i : ℕ)

@[simp] theorem opened_messages : (s.opened d t c).messages = [] := rfl

@[simp] theorem await_messages (p : Activation S) (j : ℕ) : (p.await j).messages = p.messages := rfl

theorem resume_messages (p : Activation S) (now : ℕ) (c : Call S) (r : c.Ret)
    (q : Prog S S.Reply) : (p.resume now c r q).messages =
      p.messages ++ (c.message? p.node).toList :=
  filterMap_concat (fun e : Event S ↦ e.1.message? p.node) p.hist ⟨c, r⟩

theorem sent_open : (s.open' d t c).sent P = s.sent P := by
  rw [sent, open_acts, List.map_append, List.sum_append, List.map_singleton, List.sum_singleton,
    opened_messages, List.countP_nil, Nat.add_zero, sent]

end Simp

variable [DecidableEq S.Addr] {s s' : Net V} {l : Label S}

/-- **What a step sends** is added to what was sent. -/
theorem Step.sent (h : Step s l s') (P : Message S → Bool) :
    s'.sent P = s.sent P + (s.sends? l).toList.countP P := by
  match l with
  | .submit a t =>
    cases h
    exact sent_open P s a t none
  | .deliver j =>
    cases h
    rfl
  | .restart a =>
    cases h
    refine (sent_open P (s.crash a) a V.boot none).trans ?_
    rw [Net.sent, Net.sent, crash, List.map_map]
    refine congrArg List.sum (List.map_congr_left fun p _ ↦ ?_)
    show (if p.node = a then { p with alive := false } else p).messages.countP P = _
    split <;> rfl
  | .step i o =>
    obtain ⟨p, c, k, hp, -, hc, hacts⟩ := h.moved
    have hsends : s.sends? (.step i o) = c.message? p.node := by
      rw [sends?, hp, Option.bind_some, hc]
      rfl
    rw [hsends, Net.sent, Net.sent]
    rcases hacts with ⟨r, hacts⟩ | ⟨dest, t, rfl, -, hacts⟩ <;> rw [hacts]
    · -- the call is answered
      have hset := sum_map_set (fun p ↦ p.messages.countP P)
        (b := p.resume s.clock c r (k r)) hp
      rw [resume_messages, List.countP_append] at hset
      omega
    · -- a procedure is started
      have happ : (s.acts ++ [s.opened (dest.getD p.node) t (some i)])[i]? = some p := by
        rw [List.getElem?_append_left (lt_length hp), hp]
      have hset := sum_map_set (fun p ↦ p.messages.countP P)
        (b := p.await s.acts.length) happ
      rw [await_messages, List.map_append, List.sum_append] at hset
      exact Nat.add_right_cancel hset

omit [DecidableEq S.Addr] in
/-- The request that is sent by the activation `i` in a step. -/
theorem sends?_eq {i : ℕ} {p : Activation S} {c : Call S} {k : c.Ret → Prog S S.Reply}
    (hp : s.acts[i]? = some p) (hc : p.prog = .call c k) (o : Outcome) :
    s.sends? (.step i o) = c.message? p.node := by
  rw [sends?, hp, Option.bind_some, hc]
  rfl

/-- What is left of a request that was sent, if it is lost in no step. -/
theorem transmit_late_countP (s : Net V) (i : ℕ) (d : S.Addr) (a : S.Act) (o : Outcome)
    (Q : S.Addr × S.Act → Bool) :
    (if o.Executed then [(d, a)].countP Q else 0) + (s.transmit i d a o).late.countP Q ≤
        s.late.countP Q + [(d, a)].countP Q ∧
    (o ≠ .requestLost → (if o.Executed then [(d, a)].countP Q else 0) +
      (s.transmit i d a o).late.countP Q = s.late.countP Q + [(d, a)].countP Q) := by
  match o with
  | .delivered | .replyLost =>
    have heq : [(d, a)].countP Q + s.late.countP Q = s.late.countP Q + [(d, a)].countP Q :=
      Nat.add_comm _ _
    exact ⟨Nat.le_of_eq heq, fun _ ↦ heq⟩
  | .requestLost => exact ⟨by show 0 + s.late.countP Q ≤ _; omega, fun hne ↦ absurd rfl hne⟩
  | .late =>
    have heq : 0 + (s.late ++ [(d, a)]).countP Q = s.late.countP Q + [(d, a)].countP Q := by
      rw [List.countP_append, Nat.zero_add]
    exact ⟨Nat.le_of_eq heq, fun _ ↦ heq⟩

/-- **Every request is accounted for**: what was sent is executed now, or is in flight, or lost. -/
theorem Step.account (h : Step s l s') (Q : S.Addr × S.Act → Bool) :
    (s.receives? l).toList.countP Q + s'.late.countP Q ≤
        s.late.countP Q + (s.sends? l).toList.countP (fun m ↦ Q (m.dest, m.act)) ∧
    (l.Lossless → (s.receives? l).toList.countP Q + s'.late.countP Q =
        s.late.countP Q + (s.sends? l).toList.countP (fun m ↦ Q (m.dest, m.act))) := by
  -- nothing is sent
  have hnothing : s.receives? l = none → s.sends? l = none → s'.late = s.late →
      (s.receives? l).toList.countP Q + s'.late.countP Q =
        s.late.countP Q + (s.sends? l).toList.countP (fun m ↦ Q (m.dest, m.act)) := by
    intro hreceives hsends hlate
    rw [hreceives, hsends, hlate]
    exact Nat.add_comm _ _
  have hsilent : ∀ {i : ℕ} {o : Outcome}, l = .step i o → s.sends? l = none →
      s.receives? l = none := by
    rintro i o rfl hsends
    rw [receives?, hsends]
    split <;> rfl
  cases h with
  | submit a t => exact ⟨Nat.le_of_eq (hnothing rfl rfl rfl), fun _ ↦ hnothing rfl rfl rfl⟩
  | restart a => exact ⟨Nat.le_of_eq (hnothing rfl rfl rfl), fun _ ↦ hnothing rfl rfl rfl⟩
  | @deliver j d a hj =>
    have heq : s.late[j]?.toList.countP Q + (s.late.eraseIdx j).countP Q = s.late.countP Q + 0 := by
      rw [hj]
      exact countP_eraseIdx_add Q hj
    exact ⟨Nat.le_of_eq heq, fun _ ↦ heq⟩
  | @spawn i p dest t k hp _ hc _ =>
    have hsends := sends?_eq hp hc .delivered
    have heq := hnothing (hsilent rfl hsends) hsends rfl
    exact ⟨Nat.le_of_eq heq, fun _ ↦ heq⟩
  | @back i j p q dest t r k hp _ hc _ _ _ =>
    have hsends := sends?_eq hp hc .delivered
    have heq := hnothing (hsilent rfl hsends) hsends rfl
    exact ⟨Nat.le_of_eq heq, fun _ ↦ heq⟩
  | @giveUp i p d t o k hp _ hc _ =>
    have hsends := sends?_eq hp hc o
    have heq := hnothing (hsilent rfl hsends) hsends rfl
    exact ⟨Nat.le_of_eq heq, fun _ ↦ heq⟩
  | @act i p o dest a k hp _ hc ho =>
    have hsends := sends?_eq hp hc o
    match dest, hsends, ho with
    | none, hsends, ho =>
      -- an action of the own node is never in flight
      obtain rfl := ho.resolve_left nofun
      have heq := hnothing (hsilent rfl hsends) hsends rfl
      exact ⟨Nat.le_of_eq heq, fun _ ↦ heq⟩
    | some d, hsends, _ =>
      have hreceives : (s.receives? (.step i o)).toList.countP Q =
          if o.Executed then [(d, a)].countP Q else 0 := by
        rw [receives?, hsends]
        split <;> rfl
      rw [hreceives, hsends]
      exact s.transmit_late_countP i d a o Q

end Net

end Rpc
