import LayeredConfig.Proofs.Document.Normal
import LayeredConfig.Proofs.OrderedMap

/-!
# Documents up to the order of their members

Two values are alike if a reader who goes down any path finds the same: nothing, a scalar, an array, or
an object.  The order of the members of an object is not seen this way, and nothing else is lost.

* `Alike` — the relation, an equivalence.
* `alike_array_iff`, `alike_object_iff` — what it means for arrays and objects.
* `Node.alike_of_covers` — normal documents that hold alike scalars at the same paths are alike.
-/

namespace LayeredConfig

open Key (Segment)

namespace Value

/-- The value at a path. -/
def atPath? (v : Value) : List Segment → Option Value
  | [] => some v
  | .name k :: path =>
    match v with
    | .object members => (Entries.get? k members).bind fun c => c.atPath? path
    | _ => none
  | .index i :: path =>
    match v with
    | .array items => items[i]?.bind fun c => c.atPath? path
    | _ => none

/-- A scalar itself, and a container without what it holds. -/
def top : Value → Value
  | .object _ => .object []
  | .array _ => .array []
  | v => v

/-- Equality up to the order of members, at any depth. -/
def Alike (v w : Value) : Prop := ∀ path, (v.atPath? path).map top = (w.atPath? path).map top

@[refl] theorem Alike.refl (v : Value) : Alike v v := fun _ => rfl

@[symm] theorem Alike.symm {v w : Value} (h : Alike v w) : Alike w v := fun path => (h path).symm

@[trans] theorem Alike.trans {u v w : Value} (h : Alike u v) (h' : Alike v w) : Alike u w :=
  fun path => (h path).trans (h' path)

theorem atPath?_append (v : Value) (p q : List Segment) :
    v.atPath? (p ++ q) = (v.atPath? p).bind fun c => c.atPath? q := by
  induction p generalizing v with
  | nil => rfl
  | cons g p ih =>
      cases g with
      | name k =>
          cases v with
          | object members =>
              simp only [List.cons_append, atPath?, Option.bind_assoc]
              exact Option.bind_congr fun c _ => ih c
          | null | bool | number | string | array => rfl
      | index i =>
          cases v with
          | array items =>
              simp only [List.cons_append, atPath?, Option.bind_assoc]
              exact Option.bind_congr fun c _ => ih c
          | null | bool | number | string | object => rfl

/-- Two optional values of which neither or both are there, and then alike. -/
theorem rel_alike_iff {x y : Option Value} :
    Option.Rel Alike x y ↔
      ∀ path, (x.bind fun c => c.atPath? path).map top = (y.bind fun c => c.atPath? path).map top := by
  constructor
  · rintro (⟨h⟩ | _) path
    · exact h path
    · rfl
  · intro h
    cases x with
    | none =>
        cases y with
        | none => exact .none
        | some w => exact absurd (h []) (by simp [atPath?])
    | some v =>
        cases y with
        | none => exact absurd (h []) (by simp [atPath?])
        | some w => exact .some h

/-- Arrays are alike if their items are, one by one. -/
theorem alike_array_iff {xs ys : List Value} :
    Alike (.array xs) (.array ys) ↔ ∀ i : Nat, Option.Rel Alike xs[i]? ys[i]? := by
  simp only [rel_alike_iff]
  constructor
  · exact fun h i path => h (.index i :: path)
  · rintro h (_ | ⟨k | i, path⟩)
    · rfl
    · rfl
    · exact h i path

/-- Objects are alike if they have the same names and alike members under them. -/
theorem alike_object_iff {xs ys : List (String × Value)} :
    Alike (.object xs) (.object ys) ↔
      ∀ k, Option.Rel Alike (Entries.get? k xs) (Entries.get? k ys) := by
  simp only [rel_alike_iff]
  constructor
  · exact fun h k path => h (.name k :: path)
  · rintro h (_ | ⟨k | i, path⟩)
    · rfl
    · exact h k path
    · rfl

/-- Objects that are alike have the same names, in some order. -/
theorem Alike.keys_perm {xs ys : List (String × Value)} (hx : (Entries.keys xs).Nodup)
    (hy : (Entries.keys ys).Nodup) (h : Alike (.object xs) (.object ys)) :
    (Entries.keys xs).Perm (Entries.keys ys) := by
  rw [List.perm_ext_iff_of_nodup hx hy]
  intro k
  rw [← Entries.isSome_get?_iff, ← Entries.isSome_get?_iff]
  have hrel := alike_object_iff.1 h k
  generalize Entries.get? k xs = x at hrel ⊢
  generalize Entries.get? k ys = y at hrel ⊢
  cases hrel <;> simp

end Value

namespace Node

open Value (Alike)

theorem get?_entriesToValues (m : NodeMap) (k : String) :
    Entries.get? k (entriesToValues m) = (m.get? k).map toValue := by
  induction m with
  | nil => rfl
  | cons e m ih =>
      obtain ⟨k', n⟩ := e
      rw [entriesToValues, Entries.get?, NodeMap.get?_cons, ih]
      split <;> rfl

theorem getElem?_itemsToValues (items : List Node) (i : Nat) :
    (itemsToValues items)[i]? = items[i]?.map toValue := by
  induction items generalizing i with
  | nil => simp [itemsToValues]
  | cons n items ih => cases i <;> simp [itemsToValues, ih]

/-- The value at the path of a node is the value of the node. -/
theorem at?_toValue {n a : Node} {path : List Segment} (h : n.at? path = some a) :
    n.toValue.atPath? path = some a.toValue := by
  induction path generalizing n with
  | nil =>
      obtain rfl : n = a := by simpa using h
      rfl
  | cons g path ih =>
      cases g with
      | name k =>
          obtain ⟨m, c, rfl, hc, h⟩ := at?_name_eq_some.1 h
          simp [toValue, Value.atPath?, get?_entriesToValues, hc, ih h]
      | index i =>
          obtain ⟨items, c, rfl, hc, h⟩ := at?_index_eq_some.1 h
          simp [toValue, Value.atPath?, getElem?_itemsToValues, hc, ih h]

/-- Values at the same path of documents that are alike. -/
theorem alike_at? {n n' a a' : Node} {path : List Segment} (h : n.toValue.Alike n'.toValue)
    (ha : n.at? path = some a) (ha' : n'.at? path = some a') : a.toValue.Alike a'.toValue := by
  intro q
  have hq := h (path ++ q)
  rwa [Value.atPath?_append, Value.atPath?_append, at?_toValue ha, at?_toValue ha'] at hq

/-- Wherever the first node has a scalar, the second has one that is alike. -/
def Covers (n' n : Node) : Prop :=
  ∀ path v, n.at? path = some (.leaf v) → ∃ w, n'.at? path = some (.leaf w) ∧ Alike v w

section

variable {n n' c c' : Node}

theorem Covers.entry {m m' : NodeMap} {k : String} (h : Covers (.map m') (.map m))
    (hc : m.get? k = some c) (hc' : m'.get? k = some c') : Covers c' c := by
  intro path v hv
  obtain ⟨w, hw, hvw⟩ := h (.name k :: path) v (at?_name_eq_some.2 ⟨m, c, rfl, hc, hv⟩)
  obtain ⟨_, d, ⟨⟩, hd, hw⟩ := at?_name_eq_some.1 hw
  obtain rfl : c' = d := by simpa [hc'] using hd
  exact ⟨w, hw, hvw⟩

theorem Covers.element {items items' : List Node} {i : Nat}
    (h : Covers (.list items') (.list items)) (hc : items[i]? = some c)
    (hc' : items'[i]? = some c') : Covers c' c := by
  intro path v hv
  obtain ⟨w, hw, hvw⟩ := h (.index i :: path) v (at?_index_eq_some.2 ⟨items, c, rfl, hc, hv⟩)
  obtain ⟨_, d, ⟨⟩, hd, hw⟩ := at?_index_eq_some.1 hw
  obtain rfl : c' = d := by simpa [hc'] using hd
  exact ⟨w, hw, hvw⟩

/-- A filled node is covered by nodes of its own kind only. -/
theorem Covers.opener_eq (h : Covers n' n) (hn : n.Normal) (hf : n.Filled) :
    n.opener = n'.opener := by
  obtain ⟨-, v, path, hv, -⟩ := hn.exists_held hf
  obtain ⟨w, hw, -⟩ := h path v hv
  cases path with
  | nil =>
      obtain rfl : n = .leaf v := by simpa using hv
      obtain rfl : n' = .leaf w := by simpa using hw
      rfl
  | cons g path =>
      rw [opener_eq_lead hv (List.cons_ne_nil g path), opener_eq_lead hw (List.cons_ne_nil g path)]

theorem Covers.exists_entry {m m' : NodeMap} {k : String} (h : Covers (.map m') (.map m))
    (hm : Normal (.map m)) (hc : m.get? k = some c) : ∃ c', m'.get? k = some c' := by
  obtain ⟨-, v, path, hv, -⟩ := (hm.entry hc).exists_held (hm.entry_filled hc)
  obtain ⟨w, hw, -⟩ := h (.name k :: path) v (at?_name_eq_some.2 ⟨m, c, rfl, hc, hv⟩)
  obtain ⟨_, c', ⟨⟩, hc', -⟩ := at?_name_eq_some.1 hw
  exact ⟨c', hc'⟩

/-- A list that covers another one is at least as long. -/
theorem Covers.exists_element {items items' : List Node} {i : Nat}
    (h : Covers (.list items') (.list items)) (hl : Normal (.list items))
    (hc : items[i]? = some c) : ∃ c', items'[i]? = some c' := by
  -- a scalar at or behind the element is covered, so the list goes on up to there
  obtain ⟨j, d, hij, hget, hfilled⟩ := hl.exists_filled_element hc
  obtain ⟨-, v, path, hv, -⟩ := (hl.element hget).exists_held hfilled
  obtain ⟨w, hw, -⟩ := h (.index j :: path) v (at?_index_eq_some.2 ⟨items, d, rfl, hget, hv⟩)
  obtain ⟨_, c', ⟨⟩, hc', -⟩ := at?_index_eq_some.1 hw
  have hj := (List.getElem?_eq_some_iff.1 hc').1
  exact ⟨_, List.getElem?_eq_getElem (by omega)⟩

/-- An element has the kind of the one that it covers and is covered by; null slots cover nothing. -/
theorem element_opener_eq {items items' : List Node} {i : Nat} (hl : Normal (.list items))
    (hl' : Normal (.list items')) (hc : items[i]? = some c) (hc' : items'[i]? = some c')
    (h : Covers c' c) (h' : Covers c c') : c.opener = c'.opener := by
  by_cases hnull : c = .null
  · by_cases hnull' : c' = .null
    · rw [hnull, hnull']
    · exact (h'.opener_eq (hl'.element hc') (hl'.element_filled hc' hnull')).symm
  · exact h.opener_eq (hl.element hc) (hl.element_filled hc hnull)

/-- Normal nodes of one kind that have alike scalars at the same paths are alike. -/
theorem alike_of_covers (hn : n.Normal) (hn' : n'.Normal) (hkind : n.opener = n'.opener)
    (h : Covers n' n) (h' : Covers n n') : n.toValue.Alike n'.toValue := by
  induction hn generalizing n' with
  | leaf v =>
      obtain ⟨w, hw, hvw⟩ := h [] v rfl
      obtain rfl : n' = .leaf w := by simpa using hw
      simpa [toValue] using hvw
  | null =>
      cases n' with
      | null => exact Alike.refl _
      | leaf w =>
          obtain ⟨v, hv, -⟩ := h' [] w rfl
          simp at hv
      | map m' => simp at hkind
      | list items' => simp at hkind
  | @map m distinct named filled entries ih =>
      -- each map covers the other, so they have entries under the same names
      have hm : Normal (.map m) := .map distinct named filled entries
      cases n' with
      | leaf | null | list => simp at hkind
      | map m' =>
          rw [toValue, toValue, Value.alike_object_iff]
          intro k
          rw [get?_entriesToValues, get?_entriesToValues]
          cases hc : m.get? k with
          | none =>
              cases hc' : NodeMap.get? m' k with
              | none => exact .none
              | some c' =>
                  obtain ⟨c, hc₁⟩ := h'.exists_entry hn' hc'
                  simp [hc] at hc₁
          | some c =>
              obtain ⟨c', hc'⟩ := h.exists_entry hm hc
              have hcover := h.entry hc hc'
              rw [hc']
              exact .some (ih k c hc (hn'.entry hc')
                (hcover.opener_eq (hm.entry hc) (hm.entry_filled hc)) hcover (h'.entry hc' hc))
  | @list items last filled elements ih =>
      -- the same for elements, where null slots have to be seen as such from the other side
      have hl : Normal (.list items) := .list last filled elements
      cases n' with
      | leaf | null | map => simp at hkind
      | list items' =>
          rw [toValue, toValue, Value.alike_array_iff]
          intro i
          rw [getElem?_itemsToValues, getElem?_itemsToValues]
          cases hc : items[i]? with
          | none =>
              cases hc' : items'[i]? with
              | none => exact .none
              | some c' =>
                  obtain ⟨c, hc₁⟩ := h'.exists_element hn' hc'
                  simp [hc] at hc₁
          | some c =>
              obtain ⟨c', hc'⟩ := h.exists_element hl hc
              have hcover := h.element hc hc'
              have hcover' := h'.element hc' hc
              rw [hc']
              exact .some (ih i c hc (hn'.element hc')
                (element_opener_eq hl hn' hc hc' hcover hcover') hcover hcover')

end

end Node

end LayeredConfig
