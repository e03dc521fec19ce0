/-!
# Totals

The sum of a list of numbers, by recursion on the list.
-/

namespace CommitLog

/-- The sum of a list of numbers. -/
def total : List Nat → Nat
  | [] => 0
  | n :: later => n + total later

@[simp] theorem total_nil : total [] = 0 := rfl

@[simp] theorem total_cons (n : Nat) (later : List Nat) :
    total (n :: later) = n + total later := rfl

@[simp] theorem total_append (front later : List Nat) :
    total (front ++ later) = total front + total later := by
  induction front with
  | nil => simp
  | cons n front ih => simp [ih, Nat.add_assoc]

end CommitLog
