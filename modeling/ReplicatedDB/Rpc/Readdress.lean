import ReplicatedDB.Rpc.Program

/-!
# The same calls to other addresses

A procedure names other nodes in its own way. `Routes` says which node a call reaches, depending on
what is called and on the name it is called by, and `Prog.readdress` sends the calls of a program
there. What is true of a program stays true of it, if it is said about the calls that are made
(`Sat.readdress`).
-/

namespace Rpc

variable {S : Sig} {ι α : Type}

/-- The same calls between nodes of the type `ι`. -/
abbrev Sig.withAddr (S : Sig) (ι : Type) : Sig := { S with Addr := ι }

/-- Where the actions and the procedures that are called by an address are executed. -/
structure Routes (S : Sig) (ι : Type) where
  act : S.Act → S.Addr → ι
  task : S.Task → S.Addr → ι

/-- The call, at the node that it reaches. -/
def Call.readdress (f : Routes S ι) : Call S → Call (S.withAddr ι)
  | .act dest a => .act (dest.map (f.act a)) a
  | .invoke dest t => .invoke (dest.map (f.task t)) t

/-- The call with its answer, at the node that it reaches. -/
def Event.readdress (f : Routes S ι) : Event S → Event (S.withAddr ι)
  | ⟨.act dest a, r⟩ => ⟨.act (dest.map (f.act a)) a, r⟩
  | ⟨.invoke dest t, r⟩ => ⟨.invoke (dest.map (f.task t)) t, r⟩

/-- The program, with all its calls made at the nodes that they reach. -/
def Prog.readdress (f : Routes S ι) : Prog S α → Prog (S.withAddr ι) α
  | .ret a => .ret a
  | .call (.act dest a) k => .call (.act (dest.map (f.act a)) a) fun r ↦ (k r).readdress f
  | .call (.invoke dest t) k => .call (.invoke (dest.map (f.task t)) t) fun r ↦ (k r).readdress f

variable {rely : ∀ c : Call S, c.Ret → Prop} {emits : List (Event S) → Call S → Prop}
  {returns : List (Event S) → α → Prop} {rely' : ∀ c : Call (S.withAddr ι), c.Ret → Prop}
  {emits' : List (Event (S.withAddr ι)) → Call (S.withAddr ι) → Prop}
  {returns' : List (Event (S.withAddr ι)) → α → Prop}

/-- **A readdressed program** does what the program does, if that is said about the calls that are
made. -/
theorem Sat.readdress (f : Routes S ι)
    (hrely : ∀ e : Event S, rely' (Event.readdress f e).1 (Event.readdress f e).2 → rely e.1 e.2)
    (hemits : ∀ h c, emits h c → emits' (h.map (Event.readdress f)) (c.readdress f))
    (hreturns : ∀ h a, returns h a → returns' (h.map (Event.readdress f)) a) :
    ∀ {p : Prog S α} {h : List (Event S)}, Sat rely emits returns p h →
      Sat rely' emits' returns' (p.readdress f) (h.map (Event.readdress f))
  | .ret _, _, hp => hreturns _ _ hp
  | .call (.act dest a) k, h, hp => by
    refine ⟨hemits _ _ hp.1, fun r hr ↦ ?_⟩
    have hk := (hp.2 r (hrely ⟨.act dest a, r⟩ hr)).readdress f hrely hemits hreturns
    rwa [List.map_append, List.map_singleton] at hk
  | .call (.invoke dest t) k, h, hp => by
    refine ⟨hemits _ _ hp.1, fun r hr ↦ ?_⟩
    have hk := (hp.2 r (hrely ⟨.invoke dest t, r⟩ hr)).readdress f hrely hemits hreturns
    rwa [List.map_append, List.map_singleton] at hk

end Rpc
