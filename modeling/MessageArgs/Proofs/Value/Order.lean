import MessageArgs.Value.Order

/-!
# The order of atoms

Atoms are ordered by their kind, then by their number, then by their text (`compare_eq`). Each of
these orders is transitive, so the one that they make up is, and keys can be put into order by it.
-/

namespace MessageArgs.Atom

/-- The text that an atom is ordered by. -/
def letters : Atom → String
  | string s => s
  | _ => ""

theorem compare_eq : Atom.compare =
    compareLex (compareOn rank) (compareLex (compareOn weight) (compareOn letters)) := by
  funext a b
  cases a <;> cases b <;>
    first
    | rfl
    | simp [Atom.compare, compareLex, compareOn, letters, rank, weight]

/-- An atom before another one is before all that come after that one. -/
instance : Std.TransCmp Atom.compare := by
  rw [compare_eq]
  infer_instance

end MessageArgs.Atom
