import Mathlib.Control.Basic
import Mathlib.Data.List.Basic

/-!
# Programs that call remote procedures

A server procedure alternates between computing on its own variables and asking something of
its surroundings: reading or writing the state of its node, sending a request to another node
and waiting for the reply, or running another procedure. `Prog` is the free monad over such
calls, so a procedure is written once, in `do` notation, and the semantics (alone, or
interleaved with others) are chosen later.

The program logic is `Sat`. Its assertions speak about the **history** of calls and replies
the program has seen so far, oldest first. `Sat rely emits returns p h` says that, as long as
every reply satisfies `rely`, every call that `p` makes after the history `h` satisfies `emits`
at the history before it, and every result satisfies `returns` at the final history. Nothing is
said about where replies come from, which is what makes the rules compositional: `Sat.bind` for
sequencing and `Sat.foldlM` for a loop over a list with an invariant on the remaining elements.
-/

namespace Rpc

/-- The types a program is written over. -/
structure Sig where
  /-- Addresses of nodes. -/
  Addr : Type
  /-- Actions a node executes in one step on its own state. -/
  Act : Type
  /-- What an action answers. -/
  Ret : Act → Type
  /-- Procedures that make calls themselves, with their arguments. -/
  Task : Type
  /-- What a procedure answers. -/
  Reply : Type

variable {S : Sig}

/-- A call, addressed to a node or (`none`) made at the caller's own node, where no network is
involved and nothing is lost. -/
inductive Call (S : Sig) where
  /-- Execute an action. -/
  | act (dest : Option S.Addr) (a : S.Act)
  /-- Run a procedure and wait for its result. -/
  | invoke (dest : Option S.Addr) (t : S.Task)

/-- What a call answers. -/
@[reducible] def Call.Ret : Call S → Type
  | .act _ a => S.Ret a
  | .invoke _ _ => S.Reply

/-- A call together with the answer the caller got. -/
abbrev Event (S : Sig) := Σ c : Call S, c.Ret

/-- A program: it is done, or it makes a call and goes on with the answer. -/
inductive Prog (S : Sig) (α : Type) where
  | ret (a : α)
  | call (c : Call S) (k : c.Ret → Prog S α)

namespace Prog

variable {α β : Type}

/-- Sequencing. -/
def bind : Prog S α → (α → Prog S β) → Prog S β
  | .ret a, f => f a
  | .call c k, f => .call c fun r ↦ (k r).bind f

instance : Monad (Prog S) where
  pure := .ret
  bind := bind

/-- Execute an action at the own node. -/
def here (a : S.Act) : Prog S (S.Ret a) := .call (.act none a) .ret

/-- Send an action to a node and wait for its answer. -/
def send (d : S.Addr) (a : S.Act) : Prog S (S.Ret a) := .call (.act (some d) a) .ret

/-- Run a procedure as a function call at the own node. -/
def run (t : S.Task) : Prog S S.Reply := .call (.invoke none t) .ret

/-- Run a procedure at a node, over the network. -/
def invoke (d : S.Addr) (t : S.Task) : Prog S S.Reply := .call (.invoke (some d) t) .ret

@[simp] theorem pure_eq (a : α) : (pure a : Prog S α) = .ret a := rfl

@[simp] theorem ret_bind (a : α) (f : α → Prog S β) : (Prog.ret a >>= f) = f a := rfl

@[simp] theorem call_bind (c : Call S) (k : c.Ret → Prog S α) (f : α → Prog S β) :
    (Prog.call c k >>= f) = .call c fun r ↦ k r >>= f := rfl

@[simp] theorem here_bind (a : S.Act) (f : S.Ret a → Prog S β) :
    (here a >>= f) = .call (.act none a) f := rfl

@[simp] theorem send_bind (d : S.Addr) (a : S.Act) (f : S.Ret a → Prog S β) :
    (send d a >>= f) = .call (.act (some d) a) f := rfl

@[simp] theorem run_bind (t : S.Task) (f : S.Reply → Prog S β) :
    (run t >>= f) = .call (.invoke none t) f := rfl

@[simp] theorem invoke_bind (d : S.Addr) (t : S.Task) (f : S.Reply → Prog S β) :
    (invoke d t >>= f) = .call (.invoke (some d) t) f := rfl

theorem bind_ret : ∀ p : Prog S α, p >>= Prog.ret = p
  | .ret _ => rfl
  | .call c k => congrArg (Prog.call c) (funext fun r ↦ (k r).bind_ret)

/-- The next call of a program goes to the node `d`. -/
def CallsNode (d : S.Addr) : Prog S α → Prop
  | .call (.act (some d') _) _ => d' = d
  | _ => False

instance [DecidableEq S.Addr] (d : S.Addr) : DecidablePred (CallsNode (α := α) d)
  | .call (.act (some d') _) _ => inferInstanceAs (Decidable (d' = d))
  | .call (.act none _) _ | .call (.invoke _ _) _ | .ret _ => inferInstanceAs (Decidable False)

/-- The action that a program calls next, if it does. -/
def action? : Prog S α → Option (Option S.Addr × S.Act)
  | .call (.act dest a) _ => some (dest, a)
  | _ => none

@[simp] theorem action?_act (dest : Option S.Addr) (a : S.Act) (k : S.Ret a → Prog S α) :
    (Prog.call (.act dest a) k).action? = some (dest, a) := rfl

@[simp] theorem action?_invoke (dest : Option S.Addr) (t : S.Task) (k : S.Reply → Prog S α) :
    (Prog.call (.invoke dest t) k).action? = none := rfl

/-- The result of a program that is done. -/
def result? : Prog S α → Option α
  | .ret a => some a
  | .call _ _ => none

@[simp] theorem result?_ret (a : α) : (Prog.ret a : Prog S α).result? = some a := rfl

@[simp] theorem result?_call (c : Call S) (k : c.Ret → Prog S α) :
    (Prog.call c k).result? = none := rfl

theorem result?_eq_some_iff {p : Prog S α} {a : α} : p.result? = some a ↔ p = .ret a := by
  cases p with
  | ret b => simp
  | call c k => simp

end Prog

/-! ### Contracts -/

section Sat

variable {α β : Type}
variable (rely : ∀ c : Call S, c.Ret → Prop) (emits : List (Event S) → Call S → Prop)

/-- After the history `h`, as long as every answer satisfies `rely`, every call of the program
satisfies `emits` and every result satisfies `returns`. -/
def Sat (returns : List (Event S) → α → Prop) : Prog S α → List (Event S) → Prop
  | .ret a, h => returns h a
  | .call c k, h => emits h c ∧ ∀ r : c.Ret, rely c r → Sat returns (k r) (h ++ [⟨c, r⟩])

variable {rely emits} {returns : List (Event S) → α → Prop}

@[simp] theorem sat_ret {a : α} {h : List (Event S)} :
    Sat rely emits returns (.ret a) h ↔ returns h a := Iff.rfl

theorem sat_call {c : Call S} {k : c.Ret → Prog S α} {h : List (Event S)} :
    Sat rely emits returns (.call c k) h ↔
      emits h c ∧ ∀ r : c.Ret, rely c r → Sat rely emits returns (k r) (h ++ [⟨c, r⟩]) := Iff.rfl

/-- A weaker postcondition. -/
theorem Sat.mono {returns' : List (Event S) → α → Prop}
    (hret : ∀ h a, returns h a → returns' h a) :
    ∀ {p : Prog S α} {h : List (Event S)}, Sat rely emits returns p h →
      Sat rely emits returns' p h
  | .ret a, h, hp => hret h a hp
  | .call _ _, _, hp => ⟨hp.1, fun r hr ↦ (hp.2 r hr).mono hret⟩

/-- Weaker conditions on the calls. -/
theorem Sat.weaken {emits' : List (Event S) → Call S → Prop}
    (hemits : ∀ h c, emits h c → emits' h c) :
    ∀ {p : Prog S α} {h : List (Event S)}, Sat rely emits returns p h → Sat rely emits' returns p h
  | .ret _, _, hp => hp
  | .call _ _, _, hp => ⟨hemits _ _ hp.1, fun r hr ↦ (hp.2 r hr).weaken hemits⟩

/-- A program of which nothing is asked after some histories, and those that follow them. -/
theorem Sat.of_extended {I : List (Event S) → Prop} (happend : ∀ h e, I h → I (h ++ [e]))
    (hemits : ∀ h c, I h → emits h c) (hret : ∀ h a, I h → returns h a) :
    ∀ (p : Prog S α) (h : List (Event S)), I h → Sat rely emits returns p h
  | .ret a, h, hI => hret h a hI
  | .call c k, h, hI => ⟨hemits h c hI, fun r _ ↦
      Sat.of_extended happend hemits hret (k r) _ (happend h _ hI)⟩

/-- A program of which nothing is asked. -/
theorem Sat.of_forall (hemits : ∀ h c, emits h c) (hret : ∀ h a, returns h a) (p : Prog S α)
    (h : List (Event S)) : Sat rely emits returns p h :=
  Sat.of_extended (I := fun _ ↦ True) (fun _ _ _ ↦ trivial) (fun h c _ ↦ hemits h c)
    (fun h a _ ↦ hret h a) p h trivial

/-- A branch. -/
theorem Sat.ite {c : Prop} [Decidable c] {p q : Prog S α} {h : List (Event S)}
    (hp : c → Sat rely emits returns p h) (hq : ¬ c → Sat rely emits returns q h) :
    Sat rely emits returns (if c then p else q) h := by
  split
  · rename_i hc
    exact hp hc
  · rename_i hc
    exact hq hc

/-- **Sequencing**: the second program starts from the history the first one ends with. -/
theorem Sat.bind {returns' : List (Event S) → β → Prop} {f : α → Prog S β} :
    ∀ {p : Prog S α} {h : List (Event S)},
      Sat rely emits (fun h' a ↦ Sat rely emits returns' (f a) h') p h →
        Sat rely emits returns' (p >>= f) h
  | .ret _, _, hp => hp
  | .call _ _, _, hp => ⟨hp.1, fun r hr ↦ (hp.2 r hr).bind⟩

/-- **A loop over a list**, with an invariant on the elements still to come, the accumulator
and the history. -/
theorem Sat.foldlM {γ : Type} {f : β → γ → Prog S β}
    (Inv : List γ → β → List (Event S) → Prop)
    (hstep : ∀ x rest b h, Inv (x :: rest) b h →
      Sat rely emits (fun h' b' ↦ Inv rest b' h') (f b x) h) :
    ∀ (l : List γ) (b : β) (h : List (Event S)), Inv l b h →
      Sat rely emits (fun h' b' ↦ Inv [] b' h') (l.foldlM f b) h
  | [], _, _, hInv => hInv
  | x :: rest, b, h, hInv => by
    rw [List.foldlM_cons]
    refine Sat.bind ((hstep x rest b h hInv).mono fun h' b' hInv' ↦ ?_)
    exact Sat.foldlM Inv hstep rest b' h' hInv'

end Sat

end Rpc
