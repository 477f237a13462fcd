/-!
# Tables

A table is a row of keys with their values.  Keys stand in the order in which they were first given,
and each has the value that it was last given.
-/

namespace LetterMachine.Table

variable {α β : Type}

/-- The table with a value for a key, which keeps its place if it has one. -/
def put (same : α → α → Bool) (table : List (α × β)) (key : α) (value : β) : List (α × β) :=
  if table.any fun entry => same entry.1 key then
    table.map fun entry => if same entry.1 key then (entry.1, value) else entry
  else table ++ [(key, value)]

def ofPairs (same : α → α → Bool) (pairs : List (α × β)) : List (α × β) :=
  pairs.foldl (fun table (key, value) => put same table key value) []

/-- A key keeps its place: giving it a value changes no key. -/
theorem map_fst_put_of_any {same : α → α → Bool} {table : List (α × β)} {key : α} {value : β}
    (h : table.any fun entry => same entry.1 key) :
    (put same table key value).map Prod.fst = table.map Prod.fst := by
  unfold put
  rw [if_pos h, List.map_map]
  apply List.map_congr_left
  intro entry _
  simp only [Function.comp_apply]
  split <;> rfl

end LetterMachine.Table
