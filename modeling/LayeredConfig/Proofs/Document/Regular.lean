import LayeredConfig.Proofs.Document.Flat

/-!
# Regular values

The values that can be read back from their flat properties: members under distinct names without `.`
and `[`, no array that is longer than indices reach, and nothing empty.  The node of such a value has
a leaf for each of its scalars and no null slots.
-/

namespace LayeredConfig

open Key (Segment IsName)

namespace Value

/-- A value in which every scalar has a key and every key is readable. -/
inductive Regular : Value → Prop
  | scalar {v : Value} (h : v.IsScalar) : Regular v
  | array {items : List Value} (hne : items ≠ []) (hlength : items.length ≤ Key.maxIndex + 1)
      (hitems : ∀ v ∈ items, Regular v) : Regular (.array items)
  | object {members : List (String × Value)} (hne : members ≠ [])
      (hnodup : (Entries.keys members).Nodup) (hnames : ∀ e ∈ members, IsName e.1.toList)
      (hmembers : ∀ e ∈ members, Regular e.2) : Regular (.object members)

end Value

namespace Node

open Value (Regular)

mutual

/-- The node of a document: objects and arrays become maps and lists, and every scalar a leaf. -/
def ofDocument : Value → Node
  | .object members => .map (entriesOfDocument members)
  | .array items => .list (itemsOfDocument items)
  | .null => .leaf .null
  | .bool b => .leaf (.bool b)
  | .number n => .leaf (.number n)
  | .string s => .leaf (.string s)

/-- The nodes of array items. -/
def itemsOfDocument : List Value → List Node
  | [] => []
  | v :: rest => ofDocument v :: itemsOfDocument rest

/-- The nodes of object members. -/
def entriesOfDocument : List (String × Value) → List (String × Node)
  | [] => []
  | (k, v) :: rest => (k, ofDocument v) :: entriesOfDocument rest

end

mutual

theorem toValue_ofDocument : ∀ v : Value, (ofDocument v).toValue = v
  | .object members => by rw [ofDocument, toValue, entriesToValues_ofDocument members]
  | .array items => by rw [ofDocument, toValue, itemsToValues_ofDocument items]
  | .null | .bool _ | .number _ | .string _ => by simp [ofDocument, toValue]

theorem itemsToValues_ofDocument : ∀ items, itemsToValues (itemsOfDocument items) = items
  | [] => by simp [itemsOfDocument, itemsToValues]
  | v :: rest => by
    rw [itemsOfDocument, itemsToValues, toValue_ofDocument v, itemsToValues_ofDocument rest]

theorem entriesToValues_ofDocument :
    ∀ members, entriesToValues (entriesOfDocument members) = members
  | [] => by simp [entriesOfDocument, entriesToValues]
  | (k, v) :: rest => by
    rw [entriesOfDocument, entriesToValues, toValue_ofDocument v, entriesToValues_ofDocument rest]

end

theorem itemsOfDocument_eq (items : List Value) : itemsOfDocument items = items.map ofDocument := by
  induction items with
  | nil => simp [itemsOfDocument]
  | cons v rest ih => rw [itemsOfDocument, ih, List.map_cons]

theorem entriesOfDocument_eq (members : List (String × Value)) :
    entriesOfDocument members = members.map fun e => (e.1, ofDocument e.2) := by
  induction members with
  | nil => simp [entriesOfDocument]
  | cons e rest ih => rw [entriesOfDocument, ih, List.map_cons]

theorem ofDocument_scalar {v : Value} (h : v.IsScalar) : ofDocument v = .leaf v := by
  cases v with
  | array | object => exact h.elim
  | null | bool | number | string => rw [ofDocument]

theorem names_entriesOfDocument (members : List (String × Value)) :
    NodeMap.names (entriesOfDocument members) = Entries.keys members := by
  rw [entriesOfDocument_eq, NodeMap.names, List.map_map]
  rfl

theorem get?_entriesOfDocument (members : List (String × Value)) (k : String) :
    NodeMap.get? (entriesOfDocument members) k =
      (Entries.get? k members).map ofDocument := by
  induction members with
  | nil => rfl
  | cons e members ih =>
      obtain ⟨k', v⟩ := e
      rw [entriesOfDocument, NodeMap.get?_cons, Entries.get?, ih]
      split <;> rfl

theorem mem_of_get?_ofDocument {members : List (String × Value)} {k : String} {n : Node}
    (hnodup : (Entries.keys members).Nodup)
    (h : NodeMap.get? (entriesOfDocument members) k = some n) :
    ∃ v, (k, v) ∈ members ∧ n = ofDocument v := by
  rw [get?_entriesOfDocument, Option.map_eq_some_iff] at h
  obtain ⟨v, hv, rfl⟩ := h
  exact ⟨v, (Entries.mem_iff_get? hnodup).2 hv, rfl⟩

theorem mem_of_getElem?_ofDocument {items : List Value} {i : Nat} {n : Node}
    (h : (itemsOfDocument items)[i]? = some n) : ∃ v ∈ items, n = ofDocument v := by
  rw [itemsOfDocument_eq, List.getElem?_map, Option.map_eq_some_iff] at h
  obtain ⟨v, hv, rfl⟩ := h
  exact ⟨v, List.mem_of_getElem? hv, rfl⟩

theorem filled_ofDocument {v : Value} (h : v.Regular) : (ofDocument v).Filled := by
  cases h with
  | scalar h =>
      rw [ofDocument_scalar h]
      trivial
  | array hne hlength hitems =>
      rw [ofDocument, itemsOfDocument_eq]
      simpa [Filled] using hne
  | object hne hnodup hnames hmembers =>
      rw [ofDocument, entriesOfDocument_eq]
      simpa [Filled] using hne

/-- Members under distinct plain names make up a normal map. -/
theorem normal_map_ofDocument {members : List (String × Value)}
    (hnodup : (Entries.keys members).Nodup) (hnames : ∀ e ∈ members, IsName e.1.toList)
    (hmembers : ∀ e ∈ members, e.2.Regular) (hnormal : ∀ e ∈ members, Normal (ofDocument e.2)) :
    Normal (.map (entriesOfDocument members)) := by
  refine .map (by rwa [names_entriesOfDocument]) ?_ ?_ ?_
  · intro k n hk
    obtain ⟨v, hmem, -⟩ := mem_of_get?_ofDocument hnodup hk
    have hname : IsName k.toList := hnames _ hmem
    exact ⟨by rw [hname.stem]; exact hname.1, fun h => absurd hname.behindStem h⟩
  · intro k n hk
    obtain ⟨v, hmem, rfl⟩ := mem_of_get?_ofDocument hnodup hk
    exact filled_ofDocument (hmembers _ hmem)
  · intro k n hk
    obtain ⟨v, hmem, rfl⟩ := mem_of_get?_ofDocument hnodup hk
    exact hnormal _ hmem

theorem normal_ofDocument {v : Value} (h : v.Regular) : Normal (ofDocument v) := by
  induction h with
  | scalar h =>
      rw [ofDocument_scalar h]
      exact .leaf _
  | @array items hne hlength hitems ih =>
      rw [ofDocument]
      refine .list ?_ ?_ ?_
      · intro n hlast
        rw [List.getLast?_eq_getElem?] at hlast
        obtain ⟨v, hmem, rfl⟩ := mem_of_getElem?_ofDocument hlast
        intro hnull
        have hfilled := filled_ofDocument (hitems v hmem)
        rw [hnull] at hfilled
        exact hfilled
      · intro i n hi _
        obtain ⟨v, hmem, rfl⟩ := mem_of_getElem?_ofDocument hi
        exact filled_ofDocument (hitems v hmem)
      · intro i n hi
        obtain ⟨v, hmem, rfl⟩ := mem_of_getElem?_ofDocument hi
        exact ih v hmem
  | object hne hnodup hnames hmembers ih =>
      rw [ofDocument]
      exact normal_map_ofDocument hnodup hnames hmembers ih

/-- Every node of a regular value is the node of one, and every path consists of readable segments. -/
theorem at?_ofDocument {v : Value} (h : v.Regular) {path : List Segment} {a : Node}
    (ha : (ofDocument v).at? path = some a) :
    (∃ w, w.Regular ∧ a = ofDocument w) ∧ ∀ g ∈ path, Key.IsSegment g := by
  induction path generalizing v with
  | nil =>
      obtain rfl : ofDocument v = a := by simpa using ha
      exact ⟨⟨v, h, rfl⟩, by simp⟩
  | cons g path ih =>
      cases h with
      | scalar h =>
          rw [ofDocument_scalar h] at ha
          cases g <;> simp [at?] at ha
      | @array items hne hlength hitems =>
          rw [ofDocument] at ha
          cases g with
          | name k => simp [at?] at ha
          | index i =>
              obtain ⟨_, c, ⟨⟩, hc, ha⟩ := at?_index_eq_some.1 ha
              have hi := (List.getElem?_eq_some_iff.1 hc).1
              rw [itemsOfDocument_eq, List.length_map] at hi
              obtain ⟨w, hmem, rfl⟩ := mem_of_getElem?_ofDocument hc
              obtain ⟨hw, hpath⟩ := ih (hitems w hmem) ha
              have hindex : i ≤ Key.maxIndex := by omega
              exact ⟨hw, List.forall_mem_cons.2 ⟨hindex, hpath⟩⟩
      | @object members hne hnodup hnames hmembers =>
          rw [ofDocument] at ha
          cases g with
          | index i => simp [at?] at ha
          | name k =>
              obtain ⟨_, c, ⟨⟩, hc, ha⟩ := at?_name_eq_some.1 ha
              obtain ⟨w, hmem, rfl⟩ := mem_of_get?_ofDocument hnodup hc
              obtain ⟨hw, hpath⟩ := ih (hmembers _ hmem) ha
              exact ⟨hw, List.forall_mem_cons.2 ⟨hnames _ hmem, hpath⟩⟩

/-- The ends of a regular value are scalars under readable segments. -/
theorem ends_ofDocument {v : Value} (h : v.Regular) {e : List Segment × Option Value}
    (he : e ∈ (ofDocument v).ends) :
    (∃ w, w.IsScalar ∧ e.2 = some w) ∧ ∀ g ∈ e.1, Key.IsSegment g := by
  obtain ⟨c, hc, ho⟩ := (mem_ends (normal_ofDocument h)).1 he
  obtain ⟨⟨w, hw, rfl⟩, hpath⟩ := at?_ofDocument h hc
  refine ⟨?_, hpath⟩
  cases hw with
  | scalar hw =>
      rw [ofDocument_scalar hw, end?, Option.some.injEq] at ho
      exact ⟨w, hw, ho.symm⟩
  | array => simp [ofDocument, end?] at ho
  | object => simp [ofDocument, end?] at ho

end Node

end LayeredConfig
