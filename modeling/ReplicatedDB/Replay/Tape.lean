import Mathlib.Data.List.Basic

/-!
# Tapes

A **tape** holds values that were written one after another, and a head between two of them. At the
end of the tape a value that is written is appended. Anywhere else the tape is played back: the head
moves over the next value, and the value to be written is dropped.

So what was on a tape when it was rewound comes back one by one, however many values are written
(`current_foldl_rewind`), and none of it is lost: it is all there when the tape is wound to its end
(`current_wind_foldl_rewind`).
-/

namespace Replay

/-- The values before the head, and those behind it. -/
structure Tape (α : Type*) where
  past : List α := []
  future : List α := []

namespace Tape

variable {α : Type*}

/-- All values. -/
def values (t : Tape α) : List α := t.past ++ t.future

/-- The value before the head. -/
def current (t : Tape α) : Option α := t.past.getLast?

/-- Back to the first value. -/
def rewind (t : Tape α) : Tape α := { future := t.values }

/-- To the end. -/
def wind (t : Tape α) : Tape α := { past := t.values }

/-- The value that is before the head once `x` was written. -/
def next (t : Tape α) (x : α) : α := t.future.head?.getD x

/-- Write a value at the end, or play the next one back. -/
def write (t : Tape α) (x : α) : Tape α where
  past := t.past ++ [t.next x]
  future := t.future.tail

@[simp] theorem values_wind (t : Tape α) : t.wind.values = t.values := List.append_nil _

@[simp] theorem current_wind (t : Tape α) : t.wind.current = t.values.getLast? := rfl

@[simp] theorem current_write (t : Tape α) (x : α) : (t.write x).current = some (t.next x) :=
  List.getLast?_concat ..

theorem next_of_nil {t : Tape α} (h : t.future = []) (x : α) : t.next x = x := by
  rw [next, h]
  rfl

/-- At the end, writing appends. -/
theorem values_write_of_nil {t : Tape α} (h : t.future = []) (x : α) :
    (t.write x).values = t.values ++ [x] := by
  rw [values, values, write, next_of_nil h, h, List.append_nil]
  exact List.append_nil _

/-- Anywhere else, it changes nothing. -/
theorem values_write_of_ne {t : Tape α} (h : t.future ≠ []) (x : α) :
    (t.write x).values = t.values := by
  obtain ⟨y, ys, hy⟩ := List.exists_cons_of_ne_nil h
  rw [values, values, write, next, hy, List.append_assoc]
  rfl

/-- **The value that is played back** is the one behind the head. -/
theorem getElem?_next {t : Tape α} (h : t.future ≠ []) (x : α) :
    t.values[t.past.length]? = some (t.next x) := by
  obtain ⟨y, ys, hy⟩ := List.exists_cons_of_ne_nil h
  rw [values, next, hy, List.getElem?_append_right (Nat.le_refl _), Nat.sub_self]
  rfl

/-- **Several values** are played back as long as there are any, and then written. -/
theorem foldl_write : ∀ (xs : List α) (t : Tape α), xs.foldl write t =
    { past := t.past ++ (t.future.take xs.length ++ xs.drop t.future.length)
      future := t.future.drop xs.length }
  | [], t => by simp
  | x :: xs, t => by
    rw [List.foldl_cons, foldl_write xs, write, next]
    rcases t.future with _ | ⟨y, ys⟩
    · simp
    · simp

/-- What is written at the end of a tape stays there. -/
theorem foldl_write_of_nil {t : Tape α} (h : t.future = []) (xs : List α) :
    xs.foldl write t = { past := t.past ++ xs } := by
  rw [foldl_write, h]
  simp

/-- **A tape that was rewound**: its values come back one by one, and then those written since. -/
theorem current_foldl_rewind (t : Tape α) (xs : List α) : (xs.foldl write t.rewind).current =
    (t.values.take xs.length ++ xs.drop t.values.length).getLast? := by
  rw [foldl_write]
  rfl

/-- **Nothing is lost** on a tape that was rewound. -/
theorem current_wind_foldl_rewind (t : Tape α) (xs : List α) :
    (xs.foldl write t.rewind).wind.current = (t.values ++ xs.drop t.values.length).getLast? := by
  have htake : t.values.take xs.length ++ xs.drop t.values.length ++ t.values.drop xs.length =
      t.values ++ xs.drop t.values.length := by
    rcases Nat.le_total xs.length t.values.length with h | h
    · rw [List.drop_eq_nil_of_le h, List.append_nil, List.append_nil, List.take_append_drop]
    · rw [List.take_of_length_le h, List.drop_eq_nil_of_le h, List.append_nil]
  rw [current_wind, foldl_write, ← htake]
  rfl

end Tape

end Replay
