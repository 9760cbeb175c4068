import LayeredConfig.Proofs.Json.Leaves
import LayeredConfig.Proofs.Structure.Run

/-!
# Names and leaves of built documents

A built document is written with the characters of the keys, the digits and delimiters of indices and
points, and its leaves are the values of the properties.  What is asked of the names and the leaves of a
document can therefore be asked of the properties.

* `Spells.mem_of_mem` — two spellings of the same segments differ in digits only.
* `Normal.every_toValue` — names and leaves of a normal document, from what it holds.
* `every_build` — the same of a built document, from the properties.
-/

namespace LayeredConfig

variable {P : List String → Prop} {Q : Value → Prop} {C : Char → Prop}

namespace Key

/-- Characters that stand between names. -/
def IsDelimiter (c : Char) : Prop := c = '.' ∨ c = '[' ∨ c = ']' ∨ Text.isDigit c = true

instance : DecidablePred IsDelimiter := fun c =>
  inferInstanceAs (Decidable (c = '.' ∨ c = '[' ∨ c = ']' ∨ Text.isDigit c = true))

/-- Two spellings of the same segments are written with the same characters, delimiters apart. -/
theorem Spells.mem_of_mem {segments : List Segment} {s t : List Char} {c : Char}
    (hs : Spells segments s) (ht : Spells segments t) (hc : c ∈ t) : c ∈ s ∨ IsDelimiter c := by
  induction hs generalizing t with
  | nil =>
      cases ht
      contradiction
  | @name n segments s hn _ ih =>
      cases ht with
      | name _ ht =>
          rcases List.mem_cons.1 hc with rfl | hc
          · exact .inl List.mem_cons_self
          rcases List.mem_append.1 hc with hc | hc
          · exact .inl (List.mem_cons_of_mem _ (List.mem_append_left s hc))
          · exact (ih ht hc).imp_left fun h => List.mem_cons_of_mem _ (List.mem_append_right _ h)
  | @index digits segments s hd _ ih =>
      generalize hi : indexValue digits = i at ht
      cases ht with
      | @index digits' _ u hd' ht =>
          rcases List.mem_cons.1 hc with rfl | hc
          · exact .inl List.mem_cons_self
          rcases List.mem_append.1 hc with hc | hc
          · exact .inr (.inr (.inr (.inr (hd'.2.1 c hc))))
          rcases List.mem_cons.1 hc with rfl | hc
          · exact .inr (.inr (.inr (.inl rfl)))
          · refine (ih ht hc).imp_left fun h => ?_
            exact List.mem_cons_of_mem _ (List.mem_append_right _ (List.mem_cons_of_mem _ h))

end Key

namespace Node

theorem everyMember_entriesToValues {m : NodeMap} :
    Value.EveryMember P Q (entriesToValues m) ↔ ∀ e ∈ m, e.2.toValue.Every P Q := by
  induction m with
  | nil => simp [entriesToValues, Value.EveryMember]
  | cons e m ih => simp [entriesToValues, Value.EveryMember, ih]

theorem everyItem_itemsToValues {items : List Node} :
    Value.EveryItem P Q (itemsToValues items) ↔ ∀ n ∈ items, n.toValue.Every P Q := by
  induction items with
  | nil => simp [itemsToValues, Value.EveryItem]
  | cons n items ih => simp [itemsToValues, Value.EveryItem, ih]

theorem keys_entriesToValues (m : NodeMap) : Entries.keys (entriesToValues m) = m.names := by
  induction m with
  | nil => rw [entriesToValues, Entries.keys_nil, NodeMap.names, List.map_nil]
  | cons e m ih => rw [entriesToValues, Entries.keys_cons, ih, NodeMap.names, NodeMap.names, List.map_cons]

/-- The names and leaves of a normal document, from the texts and the scalars that it holds. -/
theorem Normal.every_toValue {n : Node} (hn : n.Normal)
    (htext : ∀ t v, n.Held t v → ∀ c ∈ t, C c) (hvalue : ∀ t v, n.Held t v → v.Every P Q)
    (hnames : ∀ names : List String, names.Nodup → (∀ k ∈ names, ∀ c ∈ k.toList, C c) → P names)
    (hnull : Q .null) : n.toValue.Every P Q := by
  induction hn with
  | leaf v =>
      rw [toValue]
      exact hvalue [] v (held_leaf.2 ⟨rfl, rfl⟩)
  | null => rwa [toValue, Value.Every]
  | @map m distinct named filled entries ih =>
      rw [toValue, Value.Every, keys_entriesToValues, everyMember_entriesToValues]
      constructor
      · refine hnames _ distinct fun k hk c hc => ?_
        -- below every name something is held, and the name is part of its text
        obtain ⟨n, hget⟩ := NodeMap.mem_names_iff.1 hk
        obtain ⟨t, v, ht⟩ := (entries k n hget).exists_held (filled k n hget)
        exact htext _ v (held_map.2 ⟨k, n, t, hget, ht, rfl⟩) c
          (List.mem_cons_of_mem _ (List.mem_append_left t hc))
      · rintro ⟨k, n⟩ hmem
        have hget := (NodeMap.mem_iff_get? distinct).1 hmem
        refine ih k n hget (fun t v ht c hc => ?_) fun t v ht => ?_
        · exact htext _ v (held_map.2 ⟨k, n, t, hget, ht, rfl⟩) c
            (List.mem_cons_of_mem _ (List.mem_append_right _ hc))
        · exact hvalue _ v (held_map.2 ⟨k, n, t, hget, ht, rfl⟩)
  | @list items last filled elements ih =>
      rw [toValue, Value.Every, everyItem_itemsToValues]
      intro n hmem
      obtain ⟨i, hget⟩ := List.getElem?_of_mem hmem
      refine ih i n hget (fun t v ht c hc => ?_) fun t v ht => ?_
      · exact htext _ v (held_list.2 ⟨i, n, t, hget, ht, rfl⟩) c
          (List.mem_cons_of_mem _ (List.mem_append_right _ (List.mem_cons_of_mem _ hc)))
      · exact hvalue _ v (held_list.2 ⟨i, n, t, hget, ht, rfl⟩)

end Node

namespace Structure

/-- The names and leaves of a built document, from the keys and values of the properties. -/
theorem every_build {flat : Properties} {m : NodeMap} (h : build flat = .ok m)
    (hdelimiter : ∀ c, Key.IsDelimiter c → C c)
    (hkeys : ∀ e ∈ flat.entries, ∀ c ∈ e.1.toList, C c)
    (hvalues : ∀ e ∈ flat.entries, e.2.Every P Q)
    (hnames : ∀ names : List String, names.Nodup → (∀ k ∈ names, ∀ c ∈ k.toList, C c) → P names)
    (hnull : Q .null) : (Node.map m).toValue.Every P Q := by
  have hfrom : ∀ t v, (Node.map m).Held t v →
      ∃ e ∈ flat.entries, (∀ c ∈ t, c ∈ e.1.toList ∨ Key.IsDelimiter c) ∧ v = e.2 := by
    intro t v ht
    rcases held_insertAll_imp Node.normal_empty_map h ht with
      ⟨e, he, segments, hsegments, hspells, rfl⟩ | hempty
    · refine ⟨e, he, fun c hc => ?_, rfl⟩
      rcases (Key.segments?_eq_some_iff.1 hsegments).mem_of_mem hspells hc with hc | hc
      · rcases List.mem_cons.1 hc with rfl | hc
        · exact .inr (.inl rfl)
        · exact .inl hc
      · exact .inr hc
    · simp [Node.held_map] at hempty
  refine (normal_build h).every_toValue (fun t v ht c hc => ?_) (fun t v ht => ?_) hnames hnull
  · obtain ⟨e, he, hchars, -⟩ := hfrom t v ht
    exact (hchars c hc).elim (hkeys e he c) (hdelimiter c)
  · obtain ⟨e, he, -, rfl⟩ := hfrom t v ht
    exact hvalues e he

end Structure

end LayeredConfig
