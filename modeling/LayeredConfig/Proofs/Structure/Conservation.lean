import LayeredConfig.Proofs.Document.Flat
import LayeredConfig.Proofs.Structure.Run
import Mathlib

/-!
# Structuring keeps every property

Flattening a built document gives back the properties that it was built from, however often a value
was displaced on the way, and besides them only the null slots of lists.
-/

namespace LayeredConfig.Structure

open Key (Plain)
open Node (Normal)

variable {m : NodeMap} {flat : Properties}

/-- The text of a whole path is its tail without the first point. -/
theorem point_text {path : List Key.Segment} {a : Node} (h : (Node.map m).at? path = some a)
    (hne : path ≠ []) : '.' :: Key.text path = Key.text.continued path := by
  rcases path with _ | ⟨k | i, path⟩
  · exact absurd rfl hne
  · rfl
  · simp [Node.at?] at h

/-- The scalars of a document built from plain keys are those of the properties. -/
theorem scalarEnds_build (hscalar : ∀ e ∈ flat.entries, e.2.IsScalar)
    (hplain : ∀ e ∈ flat.entries, Plain e.1.toList) (h : build flat = .ok m) :
    Node.ScalarEnds (Node.map m).ends := by
  rintro ⟨path, o⟩ he v ⟨⟩
  obtain ⟨c, hc, ho⟩ := (Node.mem_ends (normal_build h)).1 he
  rw [Node.end?_eq_some_some.1 ho] at hc
  obtain ⟨e, hmem, -, rfl⟩ := (held_build hplain h).1 ⟨path, hc, rfl⟩
  exact hscalar e hmem

/-- Where a list is padded, no text that goes on at the null slot leads to a scalar. -/
theorem not_held_below_null {n : Node} (hn : n.Normal) {path : List Key.Segment}
    (hnull : n.at? path = some .null) (hne : path ≠ []) (t : List Char) (v : Value) :
    ¬ n.Held (Key.text.continued path ++ t) v := by
  rintro ⟨q, hq, htext⟩
  obtain ⟨p, i, items, rfl, hp, hi⟩ := hn.exists_index_of_null hnull hne
  rw [Key.continued_append, List.append_assoc] at htext
  -- the text goes on at the list, whatever comes behind the index
  obtain ⟨r, rfl, hr, hheld⟩ := Node.at?_of_continued_append hn hp hq (fun _ => rfl) htext
  rcases r with _ | ⟨k | j, r⟩
  · simp at hr
  · simp [Node.at?] at hheld
  · obtain ⟨_, c, ⟨⟩, hc, hleaf⟩ := Node.at?_index_eq_some.1 hheld
    obtain ⟨rfl, -⟩ := printed_index_inj (by simpa using hr)
    obtain rfl : .null = c := by simpa [hi] using hc
    exact Node.not_held_null ⟨r, hleaf, rfl⟩

/-- Let a document be built from scalars under plain keys.  Flattening it gives every property with its
value, and besides them only nulls: under the texts of list elements at and below which there is no
property. -/
theorem flatten_build (hscalar : ∀ e ∈ flat.entries, e.2.IsScalar)
    (hplain : ∀ e ∈ flat.entries, Plain e.1.toList) (h : build flat = .ok m) :
    (∀ e ∈ flat.entries, e ∈ (Node.map m).toValue.flatten.entries) ∧
      ∀ e ∈ (Node.map m).toValue.flatten.entries, e ∉ flat.entries →
        e.2 = .null ∧
          (∃ s i, e.1.toList = s ++ '[' :: (Nat.toDigits 10 i ++ [']'])) ∧
            ∀ k ∈ flat.keys, ¬ e.1.toList <+: k.toList := by
  have hm := normal_build h
  rw [Node.entries_flatten hm (scalarEnds_build hscalar hplain h)]
  constructor
  · intro e he
    obtain ⟨path, hpath, htext⟩ := (held_build hplain h).2 ⟨e, he, rfl, rfl⟩
    have hne : path ≠ [] := by
      rintro rfl
      simp at hpath
    rw [← point_text hpath hne] at htext
    refine List.mem_map.2 ⟨(path, some e.2), (Node.mem_ends hm).2 ⟨_, hpath, rfl⟩, ?_⟩
    rw [(List.cons.inj htext).2, String.ofList_toList]
    rfl
  · intro e he hnew
    obtain ⟨⟨path, o⟩, hend, rfl⟩ := List.mem_map.1 he
    obtain ⟨c, hc, ho⟩ := (Node.mem_ends hm).1 hend
    have hne : path ≠ [] := by
      rintro rfl
      obtain rfl : Node.map m = c := by simpa using hc
      simp [Node.end?] at ho
    have hpoint := point_text hc hne
    cases o with
    | some v =>
        -- a scalar of the document is a property
        rw [Node.end?_eq_some_some.1 ho] at hc
        obtain ⟨e, hmem, htext, rfl⟩ := (held_build hplain h).1 ⟨path, hc, rfl⟩
        rw [← hpoint] at htext
        refine absurd hmem ?_
        rw [(List.cons.inj htext).2, String.ofList_toList] at hnew
        exact hnew
    | none =>
        -- a null slot is an element of a list, and nothing is held at or below it
        rw [Node.end?_eq_some_none.1 ho] at hc
        refine ⟨rfl, ?_, ?_⟩
        · obtain ⟨p, i, items, rfl, hp, -⟩ := hm.exists_index_of_null hc hne
          have hpne : p ≠ [] := by
            rintro rfl
            simp at hp
          rw [Key.continued_append, ← point_text hp hpne] at hpoint
          exact ⟨Key.text p, i, by simpa using hpoint⟩
        · rintro k hk ⟨t, ht⟩
          obtain ⟨e, hmem, rfl⟩ := List.mem_map.1 hk
          have hheld := (held_build hplain h).2 ⟨e, hmem, rfl, rfl⟩
          rw [← ht, String.toList_ofList, ← List.cons_append, hpoint] at hheld
          exact not_held_below_null hm hc hne t e.2 hheld

/-- Properties with a displaced list, a key that goes on in two ways, and a padded list. -/
def conflictingProperties : Properties :=
  .ofList [("a.b[1].c", .bool true), ("a.b", .null), ("a[0]", .string "x"), ("d[2][1]", .bool false)]

theorem flatten_build_conflictingProperties :
    ∃ m, build conflictingProperties = .ok m ∧
      (∀ e ∈ conflictingProperties.entries, e ∈ (Node.map m).toValue.flatten.entries) ∧
        ("d[2][0]", .null) ∈ (Node.map m).toValue.flatten.entries := by
  have hbuild : build conflictingProperties = .ok
      [("a", .map [("b", .leaf .null), ("b[1].c", .leaf (.bool true))]), ("a[0]", .leaf (.string "x")),
        ("d", .list [.null, .null, .list [.null, .leaf (.bool false)]])] := by cbv
  exact ⟨_, hbuild, (flatten_build (by decide) (by decide) hbuild).1, by decide⟩

end LayeredConfig.Structure
