/-!
# Tables

A table binds string keys to values and lists its entries in the order of the keys. Writing under
a key replaces what stood there (`get?_insert`), and the order is kept (`sorted_insert`).
-/

namespace Briefing

/-- Entries as they stand in a list: a key and its value. -/
abbrev Entries (α : Type) := List (String × α)

namespace Entries

variable {α : Type}

/-- The value of the first entry with the key. -/
def get? (key : String) : Entries α → Option α
  | [] => none
  | (k, v) :: rest => if k = key then some v else get? key rest

/-- Writes an entry in its place by key order, over the one that has the key. -/
def insert (key : String) (value : α) : Entries α → Entries α
  | [] => [(key, value)]
  | (k, v) :: rest =>
    if key < k then (key, value) :: (k, v) :: rest
    else if key = k then (key, value) :: rest
    else (k, v) :: insert key value rest

/-- The keys ascend strictly. -/
def Sorted (entries : Entries α) : Prop := entries.Pairwise fun a b => a.1 < b.1

/-- The entries written one after the other, in their order by key. -/
def ofList (items : List (String × α)) : Entries α :=
  items.foldl (fun entries item => entries.insert item.1 item.2) []

theorem eq_of_not_lt {a b : String} (h : ¬a < b) (h' : a ≠ b) : b < a := by
  rcases String.le_total a b with hab | hab
  · exact absurd (String.le_antisymm hab (String.not_lt.mp h)) h'
  · exact Decidable.not_not.mp fun hba =>
      h' (String.le_antisymm (String.not_lt.mp hba) hab)

theorem mem_insert {key : String} {value : α} {e : String × α} :
    ∀ {entries : Entries α}, e ∈ insert key value entries → e = (key, value) ∨ e ∈ entries
  | [], h => by simpa [insert] using h
  | (k, v) :: rest, h => by
    simp only [insert] at h
    split at h
    · simpa using h
    · split at h
      · rcases List.mem_cons.mp h with h | h
        · exact .inl h
        · exact .inr (List.mem_cons_of_mem _ h)
      · rcases List.mem_cons.mp h with h | h
        · exact .inr (h ▸ List.mem_cons_self)
        · exact (mem_insert h).imp id (List.mem_cons_of_mem _)

theorem sorted_insert {key : String} {value : α} :
    ∀ {entries : Entries α}, Sorted entries → Sorted (insert key value entries)
  | [], _ => by simp [insert, Sorted]
  | (k, v) :: rest, h => by
    have ⟨hk, hrest⟩ := List.pairwise_cons.mp h
    simp only [insert]
    split
    · rename_i hlt
      refine List.pairwise_cons.mpr ⟨fun e he => ?_, h⟩
      rcases List.mem_cons.mp he with rfl | he
      · exact hlt
      · exact String.lt_trans hlt (hk e he)
    · rename_i hlt
      split
      · rename_i heq
        exact List.pairwise_cons.mpr ⟨fun e he => heq ▸ hk e he, hrest⟩
      · rename_i hne
        refine List.pairwise_cons.mpr ⟨fun e he => ?_, sorted_insert hrest⟩
        rcases mem_insert he with rfl | he
        · exact eq_of_not_lt hlt hne
        · exact hk e he

theorem get?_insert (key : String) (value : α) (key' : String) :
    ∀ entries : Entries α,
      get? key' (insert key value entries) = if key = key' then some value else get? key' entries
  | [] => by simp [insert, get?]
  | (k, v) :: rest => by
    simp only [insert]
    split
    · simp [get?]
    · split
      · rename_i h
        subst h
        simp only [get?]
        split <;> rfl
      · rename_i h
        simp only [get?]
        split
        · rename_i hk
          rw [if_neg (fun hh => h (hh.trans hk.symm))]
        · exact get?_insert key value key' rest

end Entries

/-- Values bound to string keys, in the order of the keys. -/
structure Table (α : Type) where
  entries : Entries α
  sorted : entries.Sorted

namespace Table

variable {α : Type}

/-- The table without entries. -/
def empty : Table α := ⟨[], List.Pairwise.nil⟩

instance : EmptyCollection (Table α) := ⟨empty⟩

instance : Inhabited (Table α) := ⟨empty⟩

/-- The value bound to the key. -/
def get? (table : Table α) (key : String) : Option α := table.entries.get? key

/-- Binds the key to the value, whatever it was bound to. -/
def insert (table : Table α) (key : String) (value : α) : Table α :=
  ⟨table.entries.insert key value, Entries.sorted_insert table.sorted⟩

/-- Writes the entries in turn. -/
def insertAll (table : Table α) (items : List (String × α)) : Table α :=
  items.foldl (fun table item => table.insert item.1 item.2) table

/-- The table of the entries written in turn. -/
def ofList (items : List (String × α)) : Table α := empty.insertAll items

/-- Whether the key is bound. -/
def contains (table : Table α) (key : String) : Bool := (table.get? key).isSome

/-- The keys, ascending. -/
def keys (table : Table α) : List String := table.entries.map (·.1)

def isEmpty (table : Table α) : Bool := table.entries.isEmpty

def size (table : Table α) : Nat := table.entries.length

@[simp] theorem get?_insert (table : Table α) (key : String) (value : α) (key' : String) :
    (table.insert key value).get? key' = if key = key' then some value else table.get? key' :=
  Entries.get?_insert key value key' table.entries

@[simp] theorem get?_empty (key : String) : (empty : Table α).get? key = none := rfl

/-- The entry written last counts. -/
theorem get?_ofList_concat (items : List (String × α)) (key : String) (value : α) (key' : String) :
    (ofList (items ++ [(key, value)])).get? key'
      = if key = key' then some value else (ofList items).get? key' := by
  simp [ofList, insertAll]

end Table

/-- A set of strings: a table in which only the keys matter. -/
abbrev StringSet := Table Unit

end Briefing
