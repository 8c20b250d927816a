import Mathlib.Data.Finset.Basic
import Mathlib.Data.List.Sort

/-!
# Versioned cells

A **cell** holds a value and the set of versions it has heard of. Versions are mentioned and
values are committed under them, in any order and any number of times. A commit takes effect
if no larger version was heard of before; mentioning a version only adds to what was heard.

Three facts are all that users need. The versions of the commits that take effect never
decrease (`commits_pairwise`). The cell holds what was committed last (`value_run`). And if the
largest version that a sequence mentions is also committed, always with the same value, the
cell ends with that value (`value_of_max`), however the operations were ordered, repeated or
left out: two cells that agree on the largest version agree on the value.
-/

namespace Versioned

variable {V α : Type*}

/-- A value, and the versions that were heard of. -/
structure Cell (V α : Type*) where
  seen : Finset V
  value : α

/-- What can be done to a cell. -/
inductive Op (V α : Type*) where
  | mention (v : V)
  | commit (v : V) (x : α)

/-- The version an operation is about. -/
def Op.version : Op V α → V
  | .mention v => v
  | .commit v _ => v

@[simp] theorem version_mention (v : V) : (Op.mention v : Op V α).version = v := rfl

@[simp] theorem version_commit (v : V) (x : α) : (Op.commit v x).version = v := rfl

variable [LinearOrder V]

namespace Cell

/-- No larger version was heard of. -/
def Latest (c : Cell V α) (v : V) : Prop := ∀ u ∈ c.seen, u ≤ v

instance (c : Cell V α) (v : V) : Decidable (c.Latest v) :=
  inferInstanceAs (Decidable (∀ u ∈ c.seen, u ≤ v))

/-- One operation. -/
def apply (c : Cell V α) : Op V α → Cell V α
  | .mention v => ⟨insert v c.seen, c.value⟩
  | .commit v x => ⟨insert v c.seen, if c.Latest v then x else c.value⟩

/-- Several operations. -/
def run (c : Cell V α) (ops : List (Op V α)) : Cell V α := ops.foldl apply c

/-- The versions and values of the commits that take effect, oldest first. -/
def commits (c : Cell V α) : List (Op V α) → List (V × α)
  | [] => []
  | .mention v :: ops => (c.apply (.mention v)).commits ops
  | .commit v x :: ops =>
    if c.Latest v then (v, x) :: (c.apply (.commit v x)).commits ops
    else (c.apply (.commit v x)).commits ops

@[simp] theorem run_nil (c : Cell V α) : c.run [] = c := rfl

@[simp] theorem run_cons (c : Cell V α) (op : Op V α) (ops : List (Op V α)) :
    c.run (op :: ops) = (c.apply op).run ops := rfl

theorem run_append (c : Cell V α) (ops ops' : List (Op V α)) :
    c.run (ops ++ ops') = (c.run ops).run ops' := List.foldl_append

theorem seen_apply (c : Cell V α) (op : Op V α) : (c.apply op).seen = insert op.version c.seen := by
  cases op <;> rfl

/-- **What was heard of** is what was known before and what was mentioned or committed. -/
theorem mem_seen_run {c : Cell V α} {ops : List (Op V α)} {v : V} :
    v ∈ (c.run ops).seen ↔ v ∈ c.seen ∨ ∃ op ∈ ops, op.version = v := by
  induction ops generalizing c with
  | nil => simp
  | cons op ops ih =>
    rw [run_cons, ih, seen_apply, Finset.mem_insert]
    simp only [List.exists_mem_cons_iff]
    tauto

/-- A commit that takes effect is at least as recent as everything heard of before. -/
theorem le_of_mem_commits {c : Cell V α} {ops : List (Op V α)} {v : V} {x : α}
    (h : (v, x) ∈ c.commits ops) : c.Latest v := by
  induction ops generalizing c with
  | nil => cases h
  | cons op ops ih =>
    -- the rest is run on a cell that has heard of more
    have hrest : (v, x) ∈ (c.apply op).commits ops → c.Latest v := fun h u hu ↦
      ih h u (by rw [seen_apply]; exact Finset.mem_insert_of_mem hu)
    cases op with
    | mention u => exact hrest h
    | commit u y =>
      rw [commits] at h
      split at h
      · rename_i hlatest
        rcases List.mem_cons.1 h with heq | h
        · obtain ⟨rfl, -⟩ := Prod.mk.inj heq
          exact hlatest
        · exact hrest h
      · exact hrest h

/-- **Versions never go back** among the commits that take effect. -/
theorem commits_pairwise (c : Cell V α) (ops : List (Op V α)) :
    (c.commits ops).Pairwise fun p q ↦ p.1 ≤ q.1 := by
  induction ops generalizing c with
  | nil => exact .nil
  | cons op ops ih =>
    cases op with
    | mention v => exact ih _
    | commit v x =>
      rw [commits]
      split
      · refine List.pairwise_cons.2 ⟨fun p hp ↦ ?_, ih _⟩
        exact le_of_mem_commits hp v (by rw [seen_apply]; exact Finset.mem_insert_self _ _)
      · exact ih _

/-- **The value** is that of the last commit that took effect. -/
theorem value_run (c : Cell V α) (ops : List (Op V α)) :
    (c.run ops).value = ((c.commits ops).getLast?.map Prod.snd).getD c.value := by
  induction ops generalizing c with
  | nil => rfl
  | cons op ops ih =>
    rw [run_cons, ih]
    cases op with
    | mention v => rfl
    | commit v x =>
      rw [commits]
      split
      · rename_i hlatest
        rw [List.getLast?_cons]
        rcases ((c.apply (.commit v x)).commits ops).getLast? with _ | p
        · exact if_pos hlatest
        · rfl
      · rename_i hlatest
        congr 1
        exact if_neg hlatest

/-- **The value of the largest version**: where it is heard of last does not matter, nor what
else happens. -/
theorem value_of_max {c : Cell V α} {ops : List (Op V α)} {v : V} {x : α}
    (hmem : .commit v x ∈ ops) (hseen : c.Latest v) (hmax : ∀ op ∈ ops, op.version ≤ v)
    (hagree : ∀ y, .commit v y ∈ ops → y = x) : (c.run ops).value = x := by
  induction ops using List.reverseRecOn with
  | nil => cases hmem
  | append_singleton ops op ih =>
    have hmax' : ∀ op ∈ ops, op.version ≤ v := fun op' hop' ↦
      hmax op' (List.mem_append_left _ hop')
    have hlatest : (c.run ops).Latest v := by
      intro u hu
      rcases mem_seen_run.1 hu with hu | ⟨op', hop', rfl⟩
      · exact hseen u hu
      · exact hmax' op' hop'
    rw [run_append, run_cons, run_nil]
    rcases List.mem_append.1 hmem with hold | hnew
    · have hvalue := ih hold hmax' fun y hy ↦ hagree y (List.mem_append_left _ hy)
      cases op with
      | mention u => exact hvalue
      | commit u y =>
        -- a later commit of a smaller version is refused, one of the same version agrees
        simp only [apply]
        split
        · rename_i hu
          obtain rfl : u = v := by
            refine le_antisymm (hmax (.commit u y) (by simp)) (hu v (mem_seen_run.2 (.inr ?_)))
            exact ⟨.commit v x, hold, version_commit v x⟩
          exact hagree y (by simp)
        · exact hvalue
    · obtain rfl := List.mem_singleton.1 hnew
      exact if_pos hlatest

end Cell

end Versioned
