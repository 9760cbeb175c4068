import LayeredConfig.Json.Value
import LayeredConfig.Proofs.OrderedMap

/-!
# Leaves of JSON values

What is asked of every object and of every leaf of a value, and values with something else in place of
their strings.

* `Every` — a condition on the names of every object and one on every leaf.
* `mapStrings` — a value with a function applied to its strings, member names excepted.
* `Every.mapStrings` — conditions that the function keeps.
* `Rewritten` — values that differ in their strings only.
* `mapStrings_mapStrings_of_leftInverse` — a function that is undone by another one.
-/

namespace LayeredConfig.Value

mutual

/-- Every object of a value has names with the first property, and every leaf has the second one. -/
def Every (P : List String → Prop) (Q : Value → Prop) : Value → Prop
  | .null => Q .null
  | .bool b => Q (.bool b)
  | .number n => Q (.number n)
  | .string s => Q (.string s)
  | .array items => EveryItem P Q items
  | .object members => P (Entries.keys members) ∧ EveryMember P Q members

/-- The same for the items of an array. -/
def EveryItem (P : List String → Prop) (Q : Value → Prop) : List Value → Prop
  | [] => True
  | v :: rest => v.Every P Q ∧ EveryItem P Q rest

/-- The same for the values of members. -/
def EveryMember (P : List String → Prop) (Q : Value → Prop) : List (String × Value) → Prop
  | [] => True
  | (_, v) :: rest => v.Every P Q ∧ EveryMember P Q rest

end

section

variable (P : List String → Prop) (Q : Value → Prop) [DecidablePred P] [DecidablePred Q]

mutual

/-- The condition on a value is decided object by object and leaf by leaf. -/
def decidableEvery : (v : Value) → Decidable (v.Every P Q)
  | .null => inferInstanceAs (Decidable (Q .null))
  | .bool b => inferInstanceAs (Decidable (Q (.bool b)))
  | .number n => inferInstanceAs (Decidable (Q (.number n)))
  | .string s => inferInstanceAs (Decidable (Q (.string s)))
  | .array items => decidableEveryItem items
  | .object members =>
    have := decidableEveryMember members
    inferInstanceAs (Decidable (P (Entries.keys members) ∧ EveryMember P Q members))

/-- The same for the items of an array. -/
def decidableEveryItem : (items : List Value) → Decidable (EveryItem P Q items)
  | [] => isTrue trivial
  | v :: rest =>
    have := decidableEvery v
    have := decidableEveryItem rest
    inferInstanceAs (Decidable (v.Every P Q ∧ EveryItem P Q rest))

/-- The same for the values of members. -/
def decidableEveryMember : (members : List (String × Value)) → Decidable (EveryMember P Q members)
  | [] => isTrue trivial
  | (_, v) :: rest =>
    have := decidableEvery v
    have := decidableEveryMember rest
    inferInstanceAs (Decidable (v.Every P Q ∧ EveryMember P Q rest))

end

instance : DecidablePred (Every P Q) := decidableEvery P Q

end

mutual

/-- A value with a function applied to its strings. -/
def mapStrings (f : List Char → List Char) : Value → Value
  | .null => .null
  | .bool b => .bool b
  | .number n => .number n
  | .string s => .string (String.ofList (f s.toList))
  | .array items => .array (mapItems f items)
  | .object members => .object (mapMembers f members)

/-- Items with a function applied to their strings. -/
def mapItems (f : List Char → List Char) : List Value → List Value
  | [] => []
  | v :: rest => mapStrings f v :: mapItems f rest

/-- Members with a function applied to the strings of their values. -/
def mapMembers (f : List Char → List Char) : List (String × Value) → List (String × Value)
  | [] => []
  | (k, v) :: rest => (k, mapStrings f v) :: mapMembers f rest

end

variable {P : List String → Prop} {Q : Value → Prop} {f : List Char → List Char}

@[simp] theorem keys_mapMembers (members : List (String × Value)) :
    Entries.keys (mapMembers f members) = Entries.keys members := by
  induction members with
  | nil => rw [mapMembers]
  | cons m members ih => rw [mapMembers, Entries.keys_cons, Entries.keys_cons, ih]

mutual

theorem Every.mapStrings (hQ : ∀ s t, Q (.string s) → Q (.string t)) :
    ∀ {v : Value}, v.Every P Q → (v.mapStrings f).Every P Q
  | .null, h | .bool _, h | .number _, h => by rwa [Value.mapStrings]
  | .string s, h => by
    rw [Value.mapStrings, Every]
    exact hQ _ _ h
  | .array items, h => by
    rw [Value.mapStrings, Every]
    exact EveryItem.mapItems hQ h
  | .object members, h => by
    rw [Value.mapStrings, Every, keys_mapMembers]
    exact ⟨h.1, EveryMember.mapMembers hQ h.2⟩

theorem EveryItem.mapItems (hQ : ∀ s t, Q (.string s) → Q (.string t)) :
    ∀ {items : List Value}, EveryItem P Q items → EveryItem P Q (mapItems f items)
  | [], _ => by
    rw [Value.mapItems]
    trivial
  | v :: rest, h => by
    rw [Value.mapItems]
    exact ⟨h.1.mapStrings hQ, EveryItem.mapItems hQ h.2⟩

theorem EveryMember.mapMembers (hQ : ∀ s t, Q (.string s) → Q (.string t)) :
    ∀ {members : List (String × Value)}, EveryMember P Q members →
      EveryMember P Q (mapMembers f members)
  | [], _ => by
    rw [Value.mapMembers]
    trivial
  | (k, v) :: rest, h => by
    rw [Value.mapMembers]
    exact ⟨h.1.mapStrings hQ, EveryMember.mapMembers hQ h.2⟩

end

/-! ## Strings in place of strings -/

mutual

/-- Values that differ in their strings only, where each string is related to the one in its place: arrays have
the same length, objects the same names in the same order, and other leaves are equal. -/
def Rewritten (R : List Char → List Char → Prop) : Value → Value → Prop
  | .null, .null => True
  | .bool a, .bool b => a = b
  | .number a, .number b => a = b
  | .string s, .string t => R s.toList t.toList
  | .array items, .array items' => RewrittenItems R items items'
  | .object members, .object members' => RewrittenMembers R members members'
  | _, _ => False

/-- The same for the items of arrays. -/
def RewrittenItems (R : List Char → List Char → Prop) : List Value → List Value → Prop
  | [], [] => True
  | v :: rest, v' :: rest' => Rewritten R v v' ∧ RewrittenItems R rest rest'
  | _, _ => False

/-- The same for the members of objects. -/
def RewrittenMembers (R : List Char → List Char → Prop) :
    List (String × Value) → List (String × Value) → Prop
  | [], [] => True
  | (k, v) :: rest, (k', v') :: rest' => k = k' ∧ Rewritten R v v' ∧ RewrittenMembers R rest rest'
  | _, _ => False

end

variable {g : List Char → List Char}

mutual

/-- A function on the strings of a value is undone by one that undoes it on every text. -/
theorem mapStrings_mapStrings_of_leftInverse (h : Function.LeftInverse g f) :
    ∀ v : Value, (v.mapStrings f).mapStrings g = v
  | .null | .bool _ | .number _ => by rw [Value.mapStrings, Value.mapStrings]
  | .string s => by
    rw [Value.mapStrings, Value.mapStrings, String.toList_ofList, h s.toList, String.ofList_toList]
  | .array items => by
    rw [Value.mapStrings, Value.mapStrings, mapItems_mapItems_of_leftInverse h items]
  | .object members => by
    rw [Value.mapStrings, Value.mapStrings, mapMembers_mapMembers_of_leftInverse h members]

theorem mapItems_mapItems_of_leftInverse (h : Function.LeftInverse g f) :
    ∀ items : List Value, mapItems g (mapItems f items) = items
  | [] => by rw [mapItems, mapItems]
  | v :: rest => by
    rw [mapItems, mapItems, mapStrings_mapStrings_of_leftInverse h v,
      mapItems_mapItems_of_leftInverse h rest]

theorem mapMembers_mapMembers_of_leftInverse (h : Function.LeftInverse g f) :
    ∀ members : List (String × Value), mapMembers g (mapMembers f members) = members
  | [] => by rw [mapMembers, mapMembers]
  | (k, v) :: rest => by
    rw [mapMembers, mapMembers, mapStrings_mapStrings_of_leftInverse h v,
      mapMembers_mapMembers_of_leftInverse h rest]

end

end LayeredConfig.Value
