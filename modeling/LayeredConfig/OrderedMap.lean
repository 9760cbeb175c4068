/-!
# Ordered maps

Entries under distinct names, in the order in which the names were first written.  Writing to a name
that is present replaces the value and keeps the position.
-/

namespace LayeredConfig

namespace Entries

variable {α β : Type}

/-- The names of some entries, in order. -/
def keys (entries : List (String × α)) : List String := entries.map Prod.fst

/-- The value under a name. -/
def get? (key : String) : List (String × α) → Option α
  | [] => none
  | (k, a) :: rest => if k = key then some a else get? key rest

/-- Write a value under a name, in place when the name is present and at the end otherwise. -/
def put (key : String) (value : α) : List (String × α) → List (String × α)
  | [] => [(key, value)]
  | (k, a) :: rest => if k = key then (k, value) :: rest else (k, a) :: put key value rest

/-- Write entries one after another. -/
def putAll (entries written : List (String × α)) : List (String × α) :=
  written.foldl (fun es e => put e.1 e.2 es) entries

theorem mem_keys_put {key k : String} {value : α} {entries : List (String × α)} :
    k ∈ keys (put key value entries) ↔ k = key ∨ k ∈ keys entries := by
  induction entries with
  | nil => simp [put, keys]
  | cons e rest ih =>
      obtain ⟨k', a⟩ := e
      by_cases h : k' = key
      · subst h
        simp [put, keys]
      · have : k ∈ keys (put key value ((k', a) :: rest)) ↔ k = k' ∨ k ∈ keys (put key value rest) := by
          simp [put, h, keys]
        rw [this, ih]
        simp only [keys, List.map_cons, List.mem_cons]
        grind

theorem nodup_keys_put {key : String} {value : α} {entries : List (String × α)}
    (h : (keys entries).Nodup) : (keys (put key value entries)).Nodup := by
  induction entries with
  | nil => simp [put, keys]
  | cons e rest ih =>
      obtain ⟨k', a⟩ := e
      simp only [keys, List.map_cons, List.nodup_cons] at h
      by_cases hk : k' = key
      · subst hk
        simpa [put, keys] using h
      · simp only [put, hk, if_false, keys, List.map_cons, List.nodup_cons]
        refine ⟨fun hm => ?_, ih h.2⟩
        rcases mem_keys_put.1 hm with h' | h'
        · exact hk h'
        · exact h.1 h'

theorem nodup_keys_putAll {entries written : List (String × α)} (h : (keys entries).Nodup) :
    (keys (putAll entries written)).Nodup := by
  induction written generalizing entries with
  | nil => exact h
  | cons e rest ih => exact ih (nodup_keys_put h)

end Entries

/-- A map that remembers the order of its names. -/
structure OrderedMap (α : Type) where
  entries : List (String × α)
  nodup : (Entries.keys entries).Nodup

namespace OrderedMap

variable {α β : Type}

/-- The map without entries. -/
def empty : OrderedMap α := ⟨[], by simp [Entries.keys]⟩

/-- Whether a map has no entries. -/
def isEmpty (m : OrderedMap α) : Bool := m.entries.isEmpty

/-- The number of entries. -/
def size (m : OrderedMap α) : Nat := m.entries.length

/-- The names of a map, in order. -/
def keys (m : OrderedMap α) : List String := Entries.keys m.entries

/-- The value under a name. -/
def get? (m : OrderedMap α) (key : String) : Option α := Entries.get? key m.entries

/-- Write a value under a name; a name that is present keeps its position. -/
def insert (m : OrderedMap α) (key : String) (value : α) : OrderedMap α :=
  ⟨Entries.put key value m.entries, Entries.nodup_keys_put m.nodup⟩

/-- Write entries one after another. -/
def insertAll (m : OrderedMap α) (entries : List (String × α)) : OrderedMap α :=
  ⟨Entries.putAll m.entries entries, Entries.nodup_keys_putAll m.nodup⟩

/-- The map that results from writing entries one after another. -/
def ofList (entries : List (String × α)) : OrderedMap α := empty.insertAll entries

/-- The map without one name. -/
def erase (m : OrderedMap α) (key : String) : OrderedMap α :=
  ⟨m.entries.filter (·.1 ≠ key),
    m.nodup.sublist (List.Sublist.map Prod.fst List.filter_sublist)⟩

/-- The map with a function applied to every value and its name. -/
def mapValues (f : String → α → β) (m : OrderedMap α) : OrderedMap β :=
  ⟨m.entries.map fun e => (e.1, f e.1 e.2), by
    have : Entries.keys (m.entries.map fun e => (e.1, f e.1 e.2)) = Entries.keys m.entries := by
      simp [Entries.keys]
    rw [this]
    exact m.nodup⟩

end OrderedMap

end LayeredConfig
