import Mathlib.Logic.Function.Basic
import Mathlib.Logic.Relation
import ReplicatedDB.Rpc.Program

/-!
# Networks of nodes serving remote procedure calls

A `Service` says what each action does to the state of a node and which program each procedure
runs. A `Net` is a set of nodes, the **activations** of procedures that were ever started (with
the program each has left to run), and the requests whose caller has given up although they may
still be executed.

One step lets one activation make its next call. An action at the own node takes effect at
once. A request to another node has one of four outcomes: it is executed and answered, it is
lost, it is executed but its answer is lost, or the caller gives up and the request stays in
flight, to be executed at any later time. Calling a procedure starts a new activation, and the
caller waits for it; over the network it may also stop waiting, in which case the callee goes
on by itself. A node may restart, which kills its activations and runs the boot procedure on a
fresh state. Each action is atomic and everything else interleaves freely.

The fields `hist`, `start`, `stop`, `served` and `clock` are history variables: no step reads
them, and statements about runs are phrased with them.
-/

namespace Rpc

variable {S : Sig}

/-- What the nodes of a network do. -/
structure Service (S : Sig) where
  /-- The state of a node. -/
  State : Type
  /-- The answer and the effect of an action. -/
  act : (a : S.Act) → State → S.Ret a × State
  /-- What the caller of an action sees when the call fails. -/
  lost : (a : S.Act) → S.Ret a
  /-- What the caller of a procedure sees when the call fails. -/
  failed : S.Reply
  /-- The program of a procedure at a node. -/
  body : S.Addr → S.Task → Prog S S.Reply
  /-- The state of a node that has just started. -/
  fresh : State
  /-- The procedure a node runs when it starts again. -/
  boot : S.Task

/-- What happens to a request. -/
inductive Outcome where
  | delivered
  | requestLost
  | replyLost
  | late
deriving DecidableEq

/-- The request is executed while its caller waits. -/
def Outcome.Executed (o : Outcome) : Prop := o = .delivered ∨ o = .replyLost

instance (o : Outcome) : Decidable o.Executed := inferInstanceAs (Decidable (_ ∨ _))

/-- A procedure that was started at a node. -/
structure Activation (S : Sig) where
  node : S.Addr
  task : S.Task
  /-- The activation that called it, `none` for a client and for the boot procedure. -/
  origin : Option ℕ
  /-- What is left to run. -/
  prog : Prog S S.Reply
  /-- The callee it waits for. -/
  child : Option ℕ := none
  /-- Cleared when its node restarts. -/
  alive : Bool := true
  /-- The calls made and the answers received, oldest first. -/
  hist : List (Event S) := []
  /-- When it was started. -/
  start : ℕ
  /-- When it finished. -/
  stop : Option ℕ := none

/-- An action that a node has executed, for the activation `caller` or (`none`) late. -/
structure Served (S : Sig) where
  node : S.Addr
  act : S.Act
  ret : S.Ret act
  caller : Option ℕ

/-- The nodes, the activations and the requests in flight. -/
structure Net (V : Service S) where
  nodes : S.Addr → V.State
  acts : List (Activation S) := []
  late : List (S.Addr × S.Act) := []
  /-- The actions executed so far, oldest first. -/
  served : List (Served S) := []
  /-- The number of steps taken. -/
  clock : ℕ := 0

/-- What can happen next. -/
inductive Label (S : Sig) where
  /-- A client calls a procedure. -/
  | submit (a : S.Addr) (t : S.Task)
  /-- An activation makes its next call. -/
  | step (i : ℕ) (o : Outcome)
  /-- A request in flight is executed. -/
  | deliver (j : ℕ)
  /-- A node restarts. -/
  | restart (a : S.Addr)

/-- No node restarts. -/
def Label.NoRestart : Label S → Prop
  | .restart _ => False
  | _ => True

instance : (l : Label S) → Decidable l.NoRestart
  | .submit _ _ | .step _ _ | .deliver _ => inferInstanceAs (Decidable True)
  | .restart _ => inferInstanceAs (Decidable False)

/-- Every call is executed and answered. -/
def Label.Prompt : Label S → Prop
  | .step _ o => o = .delivered
  | .submit _ _ => True
  | .deliver _ | .restart _ => False

instance : (l : Label S) → Decidable l.Prompt
  | .step _ o => inferInstanceAs (Decidable (o = .delivered))
  | .submit _ _ => inferInstanceAs (Decidable True)
  | .deliver _ | .restart _ => inferInstanceAs (Decidable False)

/-- No request stays in flight. -/
def Label.NoLate : Label S → Prop
  | .step _ o => o ≠ .late
  | _ => True

instance : (l : Label S) → Decidable l.NoLate
  | .step _ o => inferInstanceAs (Decidable (o ≠ .late))
  | .submit _ _ | .deliver _ | .restart _ => inferInstanceAs (Decidable True)

namespace Activation

/-- The activation has returned `r`. -/
def Returned (p : Activation S) (r : S.Reply) : Prop := p.prog = .ret r

/-- Go on with the answer `r` to the call `c`. -/
def resume (p : Activation S) (now : ℕ) (c : Call S) (r : c.Ret) (q : Prog S S.Reply) :
    Activation S :=
  { p with
    prog := q
    child := none
    hist := p.hist ++ [⟨c, r⟩]
    stop := q.result?.map fun _ ↦ now }

/-- Wait for the activation `j`. -/
def await (p : Activation S) (j : ℕ) : Activation S := { p with child := some j }

section Simp

variable (p : Activation S) (now j : ℕ) (c : Call S) (r : c.Ret) (q : Prog S S.Reply)

@[simp] theorem resume_node : (p.resume now c r q).node = p.node := rfl
@[simp] theorem resume_task : (p.resume now c r q).task = p.task := rfl
@[simp] theorem resume_origin : (p.resume now c r q).origin = p.origin := rfl
@[simp] theorem resume_start : (p.resume now c r q).start = p.start := rfl
@[simp] theorem resume_alive : (p.resume now c r q).alive = p.alive := rfl
@[simp] theorem resume_prog : (p.resume now c r q).prog = q := rfl
@[simp] theorem resume_child : (p.resume now c r q).child = none := rfl
@[simp] theorem resume_hist : (p.resume now c r q).hist = p.hist ++ [⟨c, r⟩] := rfl
@[simp] theorem resume_stop : (p.resume now c r q).stop = q.result?.map fun _ ↦ now := rfl
@[simp] theorem await_node : (p.await j).node = p.node := rfl
@[simp] theorem await_task : (p.await j).task = p.task := rfl
@[simp] theorem await_origin : (p.await j).origin = p.origin := rfl
@[simp] theorem await_start : (p.await j).start = p.start := rfl
@[simp] theorem await_alive : (p.await j).alive = p.alive := rfl
@[simp] theorem await_prog : (p.await j).prog = p.prog := rfl
@[simp] theorem await_child : (p.await j).child = some j := rfl
@[simp] theorem await_hist : (p.await j).hist = p.hist := rfl
@[simp] theorem await_stop : (p.await j).stop = p.stop := rfl

end Simp

end Activation

namespace Net

variable {V : Service S}

/-! ### The parts of a step -/

section Parts

variable [DecidableEq S.Addr]

/-- The node `d` executes the action `a`. -/
def exec (s : Net V) (d : S.Addr) (a : S.Act) (caller : Option ℕ) : Net V :=
  { s with
    nodes := Function.update s.nodes d (V.act a (s.nodes d)).2
    served := s.served ++ [⟨d, a, (V.act a (s.nodes d)).1, caller⟩] }

/-- What a request of the activation `i` does at once. -/
def transmit (s : Net V) (i : ℕ) (d : S.Addr) (a : S.Act) : Outcome → Net V
  | .delivered | .replyLost => s.exec d a (some i)
  | .requestLost => s
  | .late => { s with late := s.late ++ [(d, a)] }

/-- The answer its caller gets. -/
def answer (s : Net V) (d : S.Addr) (a : S.Act) : Outcome → S.Ret a
  | .delivered => (V.act a (s.nodes d)).1
  | _ => V.lost a

/-- The activation of `t` at the node `a`, when it starts. -/
def opened (s : Net V) (a : S.Addr) (t : S.Task) (origin : Option ℕ) : Activation S :=
  { node := a, task := t, origin := origin, prog := V.body a t, start := s.clock }

/-- Start an activation. -/
def open' (s : Net V) (a : S.Addr) (t : S.Task) (origin : Option ℕ) : Net V :=
  { s with acts := s.acts ++ [s.opened a t origin] }

/-- Replace an activation. -/
def put (s : Net V) (i : ℕ) (p : Activation S) : Net V := { s with acts := s.acts.set i p }

/-- One more step has been taken. -/
def tick (s : Net V) : Net V := { s with clock := s.clock + 1 }

/-- The node loses its state and its activations. -/
def crash (s : Net V) (a : S.Addr) : Net V :=
  { s with
    nodes := Function.update s.nodes a V.fresh
    acts := s.acts.map fun p ↦ if p.node = a then { p with alive := false } else p }

/-- The next call of the activation `p`, whose index is `i`. -/
def advance (s : Net V) (i : ℕ) (p : Activation S) (o : Outcome) :
    Prog S S.Reply → Option (Net V)
  | .ret _ => none
  | .call (.act dest a) k =>
    if dest.isSome ∨ o = .delivered then
      let d := dest.getD p.node
      let r := s.answer d a o
      some ((s.transmit i d a o).put i (p.resume s.clock (.act dest a) r (k r)))
    else none
  | .call (.invoke dest t) k =>
    match p.child, o with
    | none, .delivered =>
      some ((s.open' (dest.getD p.node) t (some i)).put i (p.await s.acts.length))
    | some j, .delivered =>
      (s.acts[j]?.bind (·.prog.result?)).map fun r ↦
        s.put i (p.resume s.clock (.invoke dest t) r (k r))
    | none, .requestLost | some _, .replyLost =>
      if dest.isSome then
        some (s.put i (p.resume s.clock (.invoke dest t) V.failed (k V.failed)))
      else none
    | _, _ => none

/-- One step of the network. -/
def step (s : Net V) : Label S → Option (Net V)
  | .submit a t => some (s.open' a t none).tick
  | .step i o =>
    s.acts[i]?.bind fun p ↦ if p.alive then (s.advance i p o p.prog).map tick else none
  | .deliver j =>
    s.late[j]?.map fun m ↦ ({ s with late := s.late.eraseIdx j }.exec m.1 m.2 none).tick
  | .restart a => some ((s.crash a).open' a V.boot none).tick

/-- The action that a node executes in the step, if any. -/
def executed? (s : Net V) : Label S → Option (S.Addr × S.Act)
  | .step i o =>
    s.acts[i]?.bind fun p ↦
      match p.prog with
      | .call (.act dest a) _ => if o.Executed then some (dest.getD p.node, a) else none
      | _ => none
  | .deliver j => s.late[j]?
  | _ => none

/-- The steps, read off their labels. -/
inductive Step (s : Net V) : Label S → Net V → Prop where
  /-- A client's call starts an activation. -/
  | submit (a : S.Addr) (t : S.Task) : Step s (.submit a t) (s.open' a t none).tick
  /-- An action is called. -/
  | act {i : ℕ} {p : Activation S} {o : Outcome} {dest : Option S.Addr} {a : S.Act}
      {k : S.Ret a → Prog S S.Reply} (hp : s.acts[i]? = some p) (halive : p.alive = true)
      (hc : p.prog = .call (.act dest a) k) (ho : dest.isSome ∨ o = .delivered) :
      Step s (.step i o) ((s.transmit i (dest.getD p.node) a o).put i
        (p.resume s.clock (.act dest a) (s.answer (dest.getD p.node) a o)
          (k (s.answer (dest.getD p.node) a o)))).tick
  /-- A procedure is called. -/
  | spawn {i : ℕ} {p : Activation S} {dest : Option S.Addr} {t : S.Task}
      {k : S.Reply → Prog S S.Reply} (hp : s.acts[i]? = some p) (halive : p.alive = true)
      (hc : p.prog = .call (.invoke dest t) k) (hchild : p.child = none) :
      Step s (.step i .delivered)
        ((s.open' (dest.getD p.node) t (some i)).put i (p.await s.acts.length)).tick
  /-- The procedure called has returned. -/
  | back {i j : ℕ} {p q : Activation S} {dest : Option S.Addr} {t : S.Task} {r : S.Reply}
      {k : S.Reply → Prog S S.Reply} (hp : s.acts[i]? = some p) (halive : p.alive = true)
      (hc : p.prog = .call (.invoke dest t) k) (hchild : p.child = some j)
      (hq : s.acts[j]? = some q) (hr : q.Returned r) :
      Step s (.step i .delivered) (s.put i (p.resume s.clock (.invoke dest t) r (k r))).tick
  /-- The caller of a procedure sees its call fail, before or while the callee runs. -/
  | giveUp {i : ℕ} {p : Activation S} {d : S.Addr} {t : S.Task} {o : Outcome}
      {k : S.Reply → Prog S S.Reply} (hp : s.acts[i]? = some p) (halive : p.alive = true)
      (hc : p.prog = .call (.invoke (some d) t) k)
      (ho : p.child = none ∧ o = .requestLost ∨ (∃ j, p.child = some j) ∧ o = .replyLost) :
      Step s (.step i o)
        (s.put i (p.resume s.clock (.invoke (some d) t) V.failed (k V.failed))).tick
  /-- A request in flight is executed. -/
  | deliver {j : ℕ} {d : S.Addr} {a : S.Act} (hj : s.late[j]? = some (d, a)) :
      Step s (.deliver j) ({ s with late := s.late.eraseIdx j }.exec d a none).tick
  /-- A node restarts. -/
  | restart (a : S.Addr) : Step s (.restart a) ((s.crash a).open' a V.boot none).tick

/-- **Inversion**: a step that succeeds is one of the listed ones. -/
theorem Step.of_step {s s' : Net V} {l : Label S} (h : s.step l = some s') : Step s l s' := by
  cases l with
  | submit a t =>
    obtain rfl := Option.some.inj h
    exact .submit a t
  | restart a =>
    obtain rfl := Option.some.inj h
    exact .restart a
  | deliver j =>
    obtain ⟨⟨d, a⟩, hj, rfl⟩ := Option.map_eq_some_iff.1 h
    exact .deliver hj
  | step i o =>
    obtain ⟨p, hp, hif⟩ := Option.bind_eq_some_iff.1 h
    by_cases halive : p.alive = true
    case neg => simp [halive] at hif
    rw [if_pos halive] at hif
    obtain ⟨s₁, hadv, rfl⟩ := Option.map_eq_some_iff.1 hif
    rcases hprog : p.prog with r | ⟨⟨dest, a⟩ | ⟨dest, t⟩, k⟩ <;> rw [hprog] at hadv
    · cases hadv
    · simp only [advance] at hadv
      split at hadv
      · rename_i ho
        obtain rfl := Option.some.inj hadv
        exact .act hp halive hprog ho
      · cases hadv
    · simp only [advance] at hadv
      split at hadv
      · rename_i hchild
        obtain rfl := Option.some.inj hadv
        exact .spawn hp halive hprog hchild
      · rename_i hchild
        obtain ⟨r, hr, rfl⟩ := Option.map_eq_some_iff.1 hadv
        obtain ⟨q, hq, hr⟩ := Option.bind_eq_some_iff.1 hr
        exact .back hp halive hprog hchild hq (Prog.result?_eq_some_iff.1 hr)
      · rename_i hchild
        split at hadv
        case isFalse => cases hadv
        rename_i hdest
        obtain ⟨d, rfl⟩ := Option.isSome_iff_exists.1 hdest
        obtain rfl := Option.some.inj hadv
        exact .giveUp hp halive hprog (.inl ⟨hchild, rfl⟩)
      · rename_i hchild
        split at hadv
        case isFalse => cases hadv
        rename_i hdest
        obtain ⟨d, rfl⟩ := Option.isSome_iff_exists.1 hdest
        obtain rfl := Option.some.inj hadv
        exact .giveUp hp halive hprog (.inr ⟨⟨_, hchild⟩, rfl⟩)
      · cases hadv

end Parts

end Net

end Rpc
