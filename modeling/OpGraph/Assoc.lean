/-!
# `Assoc` — tables as lists of pairs

A table lists each key once, in the order keys first came. `put` keeps that order: a key that is there
keeps its place and gets the new value.
-/

namespace OpGraph.Assoc

variable {α β : Type} [DecidableEq α]

/-- The value of a key. -/
def find? (key : α) (table : List (α × β)) : Option β :=
  (table.find? fun e => e.1 = key).map (·.2)

/-- Whether a key is there. -/
def has (key : α) (table : List (α × β)) : Bool := table.any fun e => e.1 = key

/-- Give a key a value. -/
def put (key : α) (value : β) : List (α × β) → List (α × β)
  | [] => [(key, value)]
  | e :: rest => if e.1 = key then (key, value) :: rest else e :: put key value rest

/-- The table of the entries put one after the other. -/
def ofEntries (entries : List (α × β)) : List (α × β) :=
  entries.foldl (fun t e => put e.1 e.2 t) []

theorem find?_put (key key' : α) (value : β) (table : List (α × β)) :
    find? key' (put key value table) = if key' = key then some value else find? key' table := by
  induction table with
  | nil =>
      by_cases h : key' = key
      · simp [put, find?, h]
      · simp [put, find?, h, Ne.symm h]
  | cons e rest ih =>
      by_cases he : e.1 = key
      · by_cases h : key' = key
        · simp [put, find?, he, h]
        · simp [put, find?, he, h, Ne.symm h]
      · by_cases h' : e.1 = key'
        · have hne : key' ≠ key := fun h => he (h'.trans h)
          simp [put, find?, h', hne]
        · simp only [put, he, if_false]
          simp only [find?, List.find?_cons, h', decide_false] at ih ⊢
          exact ih

theorem find?_eq_none {table : List (α × β)} {key : α} : find? key table = none ↔ key ∉ table.map (·.1) := by
  unfold find?
  rw [Option.map_eq_none_iff, List.find?_eq_none]
  simp only [decide_eq_true_eq, List.mem_map, not_exists, not_and]

/-- Where every key comes once, a key has the value it comes with. -/
theorem find?_eq_some {table : List (α × β)} (hn : (table.map (·.1)).Nodup) {key : α} {value : β} :
    find? key table = some value ↔ (key, value) ∈ table := by
  induction table with
  | nil => simp [find?]
  | cons e rest ih =>
      obtain ⟨hnew, hrest⟩ := List.nodup_cons.mp hn
      obtain ⟨key', value'⟩ := e
      by_cases h : key' = key
      · subst h
        have hnot : (key', value) ∉ rest := fun hmem => hnew (List.mem_map.mpr ⟨_, hmem, rfl⟩)
        simp [find?, hnot, eq_comm]
      · simp only [List.mem_cons, Prod.mk.injEq, Ne.symm h, false_and, false_or]
        rw [← ih hrest]
        simp [find?, h]

end OpGraph.Assoc
