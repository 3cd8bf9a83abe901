/-!
# Tables in insertion order

A table maps keys to values and remembers the order in which its keys first came in.  Replacing
the value of a key keeps the key's place.
-/

namespace QuantNet

/-- Entries in the order in which their keys were first inserted. -/
structure Table (κ ν : Type) where
  entries : List (κ × ν)
deriving DecidableEq, Repr

namespace Table

variable {κ ν : Type}

def empty : Table κ ν :=
  ⟨[]⟩

instance : Inhabited (Table κ ν) :=
  ⟨empty⟩

def keys (table : Table κ ν) : List κ :=
  table.entries.map Prod.fst

variable [DecidableEq κ]

/-- The value of the first entry with the key. -/
def get? (table : Table κ ν) (key : κ) : Option ν :=
  (table.entries.find? fun entry => entry.1 = key).map Prod.snd

def contains (table : Table κ ν) (key : κ) : Bool :=
  (table.get? key).isSome

/-- Replaces the first value of a key in place, or appends the entry. -/
def insertEntry (key : κ) (value : ν) : List (κ × ν) → List (κ × ν)
  | [] => [(key, value)]
  | entry :: rest =>
      if entry.1 = key then
        (entry.1, value) :: rest
      else
        entry :: insertEntry key value rest

/-- Gives a key its value: a known key keeps its place, a new one comes last. -/
def insert (table : Table κ ν) (key : κ) (value : ν) : Table κ ν :=
  ⟨insertEntry key value table.entries⟩

def modify (table : Table κ ν) (key : κ) (change : ν → ν) : Table κ ν :=
  match table.get? key with
  | none => table
  | some value => table.insert key (change value)

/-- The table that inserting the entries one after the other builds. -/
def ofList (entries : List (κ × ν)) : Table κ ν :=
  entries.foldl (fun table entry => table.insert entry.1 entry.2) empty

/-! ## Lookups after an insertion -/

private theorem find?_insertEntry (key other : κ) (value : ν) :
    ∀ entries : List (κ × ν),
      (((insertEntry key value entries).find? fun entry => entry.1 = other).map Prod.snd) =
        if key = other then some value
        else (entries.find? fun entry => entry.1 = other).map Prod.snd
  | [] => by
      by_cases same : key = other <;> simp [insertEntry, same]
  | entry :: rest => by
      by_cases here : entry.1 = key
      · by_cases same : key = other <;> simp [insertEntry, here, same]
      · by_cases there : entry.1 = other
        · subst there
          simp [insertEntry, here, Ne.symm here]
        · simpa [insertEntry, here, there] using find?_insertEntry key other value rest

/-- After an insertion the key has the new value and every other key its old one. -/
@[simp]
theorem get?_insert (table : Table κ ν) (key other : κ) (value : ν) :
    (table.insert key value).get? other =
      if key = other then some value else table.get? other :=
  find?_insertEntry key other value table.entries

@[simp]
theorem contains_insert (table : Table κ ν) (key other : κ) (value : ν) :
    (table.insert key value).contains other = (decide (key = other) || table.contains other) := by
  by_cases same : key = other <;> simp [contains, same]

@[simp]
theorem get?_modify (table : Table κ ν) (key other : κ) (change : ν → ν) :
    (table.modify key change).get? other =
      if key = other then (table.get? other).map change else table.get? other := by
  unfold modify
  by_cases same : key = other
  · subst same
    cases found : table.get? key with
    | none => simp [found]
    | some value => simp
  · cases table.get? key with
    | none => simp [same]
    | some value => simp [same]

/-! ## Insertions under the same key -/

private theorem insertEntry_insertEntry (key : κ) (first second : ν) :
    ∀ entries : List (κ × ν),
      insertEntry key second (insertEntry key first entries) = insertEntry key second entries
  | [] => by
      simp [insertEntry]
  | entry :: rest => by
      by_cases here : entry.1 = key
      · simp [insertEntry, here]
      · simp [insertEntry, here, insertEntry_insertEntry key first second rest]

/-- Of two insertions under the same key the last one counts. -/
@[simp]
theorem insert_insert (table : Table κ ν) (key : κ) (first second : ν) :
    (table.insert key first).insert key second = table.insert key second :=
  congrArg Table.mk (insertEntry_insertEntry key first second table.entries)

private theorem insertEntry_insertEntry_insertEntry {key other : κ} (apart : key ≠ other)
    (first second between : ν) :
    ∀ entries : List (κ × ν),
      insertEntry key second (insertEntry other between (insertEntry key first entries)) =
        insertEntry other between (insertEntry key second entries)
  | [] => by
      simp [insertEntry, apart]
  | entry :: rest => by
      by_cases here : entry.1 = key
      · simp [insertEntry, here, apart]
      · by_cases there : entry.1 = other
        · simp [insertEntry, there, apart.symm, insertEntry_insertEntry]
        · simp [insertEntry, here, there,
            insertEntry_insertEntry_insertEntry apart first second between rest]

/-- A second insertion under a key takes the place of the first, even when another key came in
between. -/
theorem insert_insert_insert {key other : κ} (apart : key ≠ other) (table : Table κ ν)
    (first second between : ν) :
    ((table.insert key first).insert other between).insert key second =
      (table.insert key second).insert other between :=
  congrArg Table.mk
    (insertEntry_insertEntry_insertEntry apart first second between table.entries)

/-! ## Keys after an insertion -/

private theorem keys_insertEntry (key : κ) (value : ν) :
    ∀ entries : List (κ × ν), (entries.find? fun entry => entry.1 = key).isSome = true →
      (insertEntry key value entries).map Prod.fst = entries.map Prod.fst
  | [], present => by cases present
  | entry :: rest, present => by
      by_cases here : entry.1 = key
      · simp [insertEntry, here]
      · have further : (rest.find? fun entry => entry.1 = key).isSome = true := by
          rwa [List.find?_cons_of_neg (by simpa using here)] at present
        simp [insertEntry, here, keys_insertEntry key value rest further]

/-- A value that is replaced leaves the keys as they are. -/
theorem keys_insert {table : Table κ ν} {key : κ} (present : (table.get? key).isSome = true)
    (value : ν) : (table.insert key value).keys = table.keys := by
  apply keys_insertEntry key value table.entries
  simpa only [get?, Option.isSome_map] using present

end Table

end QuantNet
