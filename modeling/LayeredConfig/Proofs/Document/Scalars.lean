import LayeredConfig.Proofs.Document.Alike
import LayeredConfig.Proofs.Document.Regular

/-!
# Scalars of a document

The flat properties of a regular map are its scalars, each under the key that prints its path.  Keys of
different paths differ, so what stands under a key is what stands at the path.

* `RegularMap` — the documents in question; only their root may be empty.
* `mem_flatten`, `get?_flatten` — the flat properties as the scalars at paths.
-/

namespace LayeredConfig

open Key (Segment IsName IsSegment)
open Key.text (continued)

variable {path p q : List Segment} {k n : String} {d v w : Value}

/-! ## Keys of paths -/

/-- The key that prints a path. -/
def pathKey (path : List Segment) : String := String.ofList (Key.text path)

theorem toList_pathKey_name (n : String) (path : List Segment) :
    '.' :: (pathKey (.name n :: path)).toList = continued (.name n :: path) := by
  rw [pathKey, String.toList_ofList]
  rfl

/-- Readable paths that start with a name have different keys. -/
theorem pathKey_injective {m n : String} (hp : ∀ g ∈ Segment.name m :: p, IsSegment g)
    (hq : ∀ g ∈ Segment.name n :: q, IsSegment g)
    (h : pathKey (.name m :: p) = pathKey (.name n :: q)) :
    Segment.name m :: p = .name n :: q := by
  have hspells := Key.spells_continued hp
  rw [← toList_pathKey_name, h, toList_pathKey_name] at hspells
  exact hspells.unique (Key.spells_continued hq)

namespace Node

/-- The nodes of a document are those of its values. -/
theorem at?_ofDocument_eq_map (v : Value) (path : List Segment) :
    (ofDocument v).at? path = (v.atPath? path).map ofDocument := by
  induction path generalizing v with
  | nil => rfl
  | cons g path ih =>
      cases g with
      | name k =>
          cases v with
          | object members =>
              rw [ofDocument, at?, get?_entriesOfDocument, Value.atPath?, Option.bind_map,
                Option.map_bind]
              exact Option.bind_congr fun c _ => ih c
          | null | bool | number | string | array => rw [ofDocument]; rfl
      | index i =>
          cases v with
          | array items =>
              rw [ofDocument, at?, itemsOfDocument_eq, List.getElem?_map, Value.atPath?,
                Option.bind_map, Option.map_bind]
              exact Option.bind_congr fun c _ => ih c
          | null | bool | number | string | object => rw [ofDocument]; rfl

theorem end?_ofDocument {o : Option Value} :
    (ofDocument w).end? = some o ↔ w.IsScalar ∧ o = some w := by
  cases w <;> simp [ofDocument, end?, Value.IsScalar, eq_comm]

end Node

namespace Value

/-- The scalar at a path. -/
def scalarAt? (v : Value) (path : List Segment) : Option Value :=
  (v.atPath? path).filter fun w => decide w.IsScalar

/-- A map in which every scalar has a key; unlike the maps below it, it may be empty. -/
inductive RegularMap : Value → Prop
  | object {members : List (String × Value)} (hnodup : (Entries.keys members).Nodup)
      (hnames : ∀ e ∈ members, IsName e.1.toList) (hmembers : ∀ e ∈ members, e.2.Regular) :
      RegularMap (.object members)

theorem RegularMap.regular {members : List (String × Value)} (h : RegularMap (.object members))
    (hne : members ≠ []) : Regular (.object members) := by
  cases h with
  | object hnodup hnames hmembers => exact .object hne hnodup hnames hmembers

theorem Regular.regularMap {members : List (String × Value)} (h : Regular (.object members)) :
    RegularMap (.object members) := by
  cases h with
  | scalar h => exact h.elim
  | object hne hnodup hnames hmembers => exact .object hnodup hnames hmembers

/-! ## Paths of regular maps -/

theorem scalarAt?_eq_some : d.scalarAt? path = some v ↔ d.atPath? path = some v ∧ v.IsScalar := by
  simp [scalarAt?, Option.filter_eq_some_iff]

theorem Regular.atPath? (h : v.Regular) (hw : v.atPath? path = some w) :
    w.Regular ∧ ∀ g ∈ path, IsSegment g := by
  have hat : (Node.ofDocument v).at? path = some (Node.ofDocument w) := by
    rw [Node.at?_ofDocument_eq_map, hw]
    rfl
  obtain ⟨⟨w', hw', heq⟩, hpath⟩ := Node.at?_ofDocument h hat
  have hvalue := congrArg Node.toValue heq
  rw [Node.toValue_ofDocument, Node.toValue_ofDocument] at hvalue
  exact ⟨hvalue ▸ hw', hpath⟩

/-- Below its root a regular map is regular, and all its paths are readable. -/
theorem RegularMap.atPath? (h : RegularMap d) (hw : d.atPath? (.name n :: path) = some w) :
    w.Regular ∧ ∀ g ∈ Segment.name n :: path, IsSegment g := by
  cases h with
  | object hnodup hnames hmembers =>
      obtain ⟨c, hc, hw⟩ := Option.bind_eq_some_iff.1 hw
      have hmem := (Entries.mem_iff_get? hnodup).2 hc
      obtain ⟨hregular, hpath⟩ := (hmembers _ hmem).atPath? hw
      exact ⟨hregular, List.forall_mem_cons.2 ⟨hnames _ hmem, hpath⟩⟩

theorem RegularMap.normal (h : RegularMap d) : (Node.ofDocument d).Normal := by
  cases h with
  | object hnodup hnames hmembers =>
      rw [Node.ofDocument]
      exact Node.normal_map_ofDocument hnodup hnames hmembers fun e he =>
        Node.normal_ofDocument (hmembers e he)

/-- A scalar of a map stands behind a name. -/
theorem RegularMap.exists_name (h : RegularMap d) (hv : d.scalarAt? path = some v) :
    ∃ n rest, path = .name n :: rest := by
  cases h with
  | object =>
      obtain ⟨hat, hscalar⟩ := scalarAt?_eq_some.1 hv
      rcases path with _ | ⟨n | i, rest⟩
      · obtain rfl := Option.some.inj hat
        exact hscalar.elim
      · exact ⟨n, rest, rfl⟩
      · contradiction

theorem RegularMap.isSegment (h : RegularMap d) (hv : d.scalarAt? path = some v) :
    ∀ g ∈ path, IsSegment g := by
  obtain ⟨n, rest, rfl⟩ := h.exists_name hv
  exact (h.atPath? (scalarAt?_eq_some.1 hv).1).2

/-- The flat properties of a regular map are its scalars under the keys of their paths. -/
theorem RegularMap.mem_flatten (h : RegularMap d) :
    (k, v) ∈ d.flatten.entries ↔ ∃ path, k = pathKey path ∧ d.scalarAt? path = some v := by
  have hmem : ∀ {path : List Segment} {o : Option Value}, (path, o) ∈ (Node.ofDocument d).ends ↔
      ∃ w, d.scalarAt? path = some w ∧ o = some w := by
    intro path o
    simp only [Node.mem_ends h.normal, Node.at?_ofDocument_eq_map, Option.map_eq_some_iff,
      scalarAt?_eq_some]
    constructor
    · rintro ⟨_, ⟨w, hw, rfl⟩, ho⟩
      obtain ⟨hscalar, ho⟩ := Node.end?_ofDocument.1 ho
      exact ⟨w, ⟨hw, hscalar⟩, ho⟩
    · rintro ⟨w, ⟨hw, hscalar⟩, ho⟩
      exact ⟨_, ⟨w, hw, rfl⟩, Node.end?_ofDocument.2 ⟨hscalar, ho⟩⟩
  have hends : Node.ScalarEnds (Node.ofDocument d).ends := by
    intro e he v hv
    obtain ⟨w, hw, ho⟩ := hmem.1 he
    obtain rfl : w = v := by simpa [ho] using hv
    exact (scalarAt?_eq_some.1 hw).2
  have hvalue := Node.toValue_ofDocument d
  have hnormal := h.normal
  cases h with
  | object =>
      rw [Node.ofDocument] at hvalue hnormal hends hmem
      rw [← hvalue, Node.entries_flatten hnormal hends, List.mem_map, hvalue]
      constructor
      · rintro ⟨⟨path, o⟩, he, heq⟩
        obtain ⟨w, hw, rfl⟩ := hmem.1 he
        obtain ⟨rfl, rfl⟩ := Prod.mk.inj heq
        exact ⟨path, rfl, hw⟩
      · rintro ⟨path, rfl, hv⟩
        exact ⟨(path, some v), hmem.2 ⟨v, hv, rfl⟩, rfl⟩

/-- Under the key of a path there is the scalar at the path. -/
theorem RegularMap.get?_flatten (h : RegularMap d)
    (hpath : ∀ g ∈ Segment.name n :: path, IsSegment g) :
    d.flatten.get? (pathKey (.name n :: path)) = d.scalarAt? (.name n :: path) := by
  ext v
  rw [← OrderedMap.mem_entries_iff, h.mem_flatten]
  constructor
  · rintro ⟨path', hkey, hv⟩
    obtain ⟨m, rest, rfl⟩ := h.exists_name hv
    rw [pathKey_injective hpath (h.isSegment hv) hkey]
    exact hv
  · intro hv
    exact ⟨_, rfl, hv⟩

/-- A key is that of a path. -/
theorem RegularMap.exists_path (h : RegularMap d) (hk : d.flatten.get? k = some v) :
    ∃ n path, (∀ g ∈ Segment.name n :: path, IsSegment g) ∧ k = pathKey (.name n :: path) := by
  obtain ⟨path, hkey, hv⟩ := h.mem_flatten.1 (OrderedMap.mem_entries_iff.2 hk)
  obtain ⟨n, rest, rfl⟩ := h.exists_name hv
  exact ⟨n, rest, h.isSegment hv, hkey⟩

/-- There is a scalar in every regular value. -/
theorem Regular.exists_scalar (h : v.Regular) : ∃ path w, v.scalarAt? path = some w := by
  induction h with
  | @scalar v h => exact ⟨[], v, scalarAt?_eq_some.2 ⟨rfl, h⟩⟩
  | @array items hne hlength hitems ih =>
      obtain ⟨c, rest, rfl⟩ := List.exists_cons_of_ne_nil hne
      obtain ⟨path, w, hw⟩ := ih c List.mem_cons_self
      exact ⟨.index 0 :: path, w, hw⟩
  | @object members hne hnodup hnames hmembers ih =>
      obtain ⟨⟨k, c⟩, rest, rfl⟩ := List.exists_cons_of_ne_nil hne
      obtain ⟨path, w, hw⟩ := ih (k, c) List.mem_cons_self
      refine ⟨.name k :: path, w, ?_⟩
      rw [scalarAt?, Value.atPath?, Entries.get?, if_pos rfl]
      exact hw

end Value

end LayeredConfig
