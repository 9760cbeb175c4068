import LayeredConfig.Proofs.Structure.Hoist
import LayeredConfig.Proofs.Structure.Update

/-!
# Displacing a container

A scalar that is put under the name of a map or a list takes the container apart.  The scalars that it
held are found beside the name, under compound names of the texts that they had before, so that
displacing is an insertion like any other (`inserted_displaced`).
-/

namespace LayeredConfig.Structure

open Key (IsName stem behindStem)
open Key.text (continued)
open Node (Normal Held)

variable {m : NodeMap} {name : String} {c : Node}

/-- What is found in a map after a container has been displaced from a name: the scalar, the hoisted
scalars of the container, and all other entries as before. -/
theorem get?_displaced (m : NodeMap) (name : String) (hc : c.Normal) (ho : c.opener ≠ none)
    (v : Value) (k : String) :
    (k = name ∧ (hoist (m.insert name (.leaf v)) name.toList c).get? k = some (.leaf v)) ∨
      (∃ t w, c.Held t w ∧ k.toList = name.toList ++ t ∧ t ≠ [] ∧
        (hoist (m.insert name (.leaf v)) name.toList c).get? k = some (.leaf w)) ∨
      (k ≠ name ∧ (∀ t w, c.Held t w → k.toList ≠ name.toList ++ t) ∧
        (hoist (m.insert name (.leaf v)) name.toList c).get? k = m.get? k) := by
  by_cases hheld : ∃ t w, c.Held t w ∧ k.toList = name.toList ++ t
  · obtain ⟨t, w, ht, hk⟩ := hheld
    have hne : t ≠ [] := fun h0 => ho (ht.eq_nil_iff.1 h0)
    exact .inr (.inl ⟨t, w, ht, hk, hne, get?_hoist_of_held hc ht hk⟩)
  · have hnot : ∀ t w, c.Held t w → k.toList ≠ name.toList ++ t :=
      fun t w ht hk => hheld ⟨t, w, ht, hk⟩
    have hget := get?_hoist_of_not_held (m := m.insert name (.leaf v)) hc hnot
    by_cases hkey : k = name
    · subst hkey
      exact .inl ⟨rfl, by rw [hget, NodeMap.get?_insert_self]⟩
    · exact .inr (.inr ⟨hkey, hnot, by rw [hget, NodeMap.get?_insert_of_ne hkey]⟩)

theorem get?_displaced_self (m : NodeMap) (name : String) (hc : c.Normal) (ho : c.opener ≠ none)
    (v : Value) :
    (hoist (m.insert name (.leaf v)) name.toList c).get? name = some (.leaf v) := by
  rcases get?_displaced m name hc ho v name with ⟨-, h⟩ | ⟨t, w, -, hk, hne, -⟩ | ⟨hk, -⟩
  · exact h
  · exact absurd (List.self_eq_append_right.1 hk) hne
  · exact absurd rfl hk

theorem normal_displaced (hm : Normal (.map m)) (hname : IsName name.toList)
    (hget : m.get? name = some c) (ho : c.opener ≠ none) (v : Value) :
    Normal (.map (hoist (m.insert name (.leaf v)) name.toList c)) := by
  have hc := hm.entry hget
  have hself := get?_displaced_self m name hc ho v
  refine .map (nodup_names_hoist _ c (NodeMap.nodup_names_insert name _ hm.distinct)) ?_ ?_ ?_
  · intro k n hk
    rcases get?_displaced m name hc ho v k with
      ⟨rfl, h⟩ | ⟨t, w, ht, htext, hne, h⟩ | ⟨hkey, hnot, h⟩
    · exact ⟨by rw [hname.stem]; exact hname.1, fun hb => absurd hname.behindStem hb⟩
    · -- a hoisted scalar conflicts with the scalar that displaces its container
      obtain rfl : .leaf w = n := by simpa [hk] using h.symm
      have hstem : stem k.toList = name.toList := by
        rw [htext, Key.stem_append ht.detached, hname.stem]
      have hrest : behindStem k.toList = t := by
        rw [htext, Key.behindStem_append ht.detached, hname.behindStem, List.nil_append]
      refine ⟨by rw [hstem]; exact hname.1, fun _ => ⟨⟨w, rfl⟩, .leaf v, ?_, ?_⟩⟩
      · rw [hstem, String.ofList_toList, hself]
      · rw [hrest, ht.head?]
        exact ho.symm
    · -- another compound name conflicts with that scalar too, or with what it did before
      rw [h] at hk
      obtain ⟨hstem, hcompound⟩ := hm.named k n hk
      refine ⟨hstem, fun hb => ?_⟩
      obtain ⟨hleaf, b, hbase, hopener⟩ := hcompound hb
      refine ⟨hleaf, ?_⟩
      by_cases hsame : String.ofList (stem k.toList) = name
      · refine ⟨.leaf v, by rw [hsame, hself], ?_⟩
        cases hrest : behindStem k.toList with
        | nil => exact absurd hrest hb
        | cons d rest => simp
      · refine ⟨b, ?_, hopener⟩
        rcases get?_displaced m name hc ho v (String.ofList (stem k.toList)) with
          ⟨h0, -⟩ | ⟨t, w, ht, htext, hne, -⟩ | ⟨-, -, h0⟩
        · exact absurd h0 hsame
        · have hplain := behindStem_stem k.toList
          rw [← String.toList_ofList (l := stem k.toList), htext, Key.behindStem_append ht.detached,
            hname.behindStem, List.nil_append] at hplain
          exact absurd hplain hne
        · rw [h0, hbase]
  · intro k n hk
    rcases get?_displaced m name hc ho v k with
      ⟨-, h⟩ | ⟨t, w, -, -, -, h⟩ | ⟨-, -, h⟩
    · obtain rfl : .leaf v = n := by simpa [hk] using h.symm
      trivial
    · obtain rfl : .leaf w = n := by simpa [hk] using h.symm
      trivial
    · exact hm.entry_filled (h ▸ hk)
  · intro k n hk
    rcases get?_displaced m name hc ho v k with
      ⟨-, h⟩ | ⟨t, w, -, -, -, h⟩ | ⟨-, -, h⟩
    · obtain rfl : .leaf v = n := by simpa [hk] using h.symm
      exact .leaf v
    · obtain rfl : .leaf w = n := by simpa [hk] using h.symm
      exact .leaf w
    · exact hm.entry (h ▸ hk)

theorem updates_displaced (hm : Normal (.map m)) (hname : IsName name.toList)
    (hget : m.get? name = some c) (ho : c.opener ≠ none) (v : Value) :
    Updates (.map m) (.map (hoist (m.insert name (.leaf v)) name.toList c))
      ('.' :: name.toList) v := by
  have hc := hm.entry hget
  have hself := get?_displaced_self m name hc ho v
  intro u w
  rw [Node.held_map, Node.held_map]
  constructor
  · rintro ⟨k, d, u, hk, hd, rfl⟩
    rcases get?_displaced m name hc ho v k with
      ⟨rfl, h⟩ | ⟨t, w', ht, htext, hne, h⟩ | ⟨hkey, hnot, h⟩
    · obtain rfl : .leaf v = d := by simpa [hk] using h.symm
      obtain ⟨rfl, rfl⟩ := Node.held_leaf.1 hd
      exact .inl ⟨by simp, rfl⟩
    · obtain rfl : .leaf w' = d := by simpa [hk] using h.symm
      obtain ⟨rfl, rfl⟩ := Node.held_leaf.1 hd
      exact .inr ⟨by simpa [htext] using hne, name, c, t, hget, ht, by simp [htext]⟩
    · refine .inr ⟨fun htext => hkey ?_, k, d, u, h ▸ hk, hd, rfl⟩
      have hnamed := (normal_displaced hm hname hget ho v).named
      exact Node.entry_unique hnamed hk hself hd.follows (Node.follows_nil _) (by simpa using htext)
  · rintro (⟨rfl, rfl⟩ | ⟨hne, k, d, u, hk, hd, rfl⟩)
    · exact ⟨name, _, [], hself, Node.held_leaf.2 ⟨rfl, rfl⟩, by simp⟩
    · by_cases hkey : k = name
      · subst hkey
        obtain rfl : c = d := by simpa [hget] using hk
        -- a scalar of the container is found under the compound name with its text
        have htext : (String.ofList (k.toList ++ u)).toList = k.toList ++ u := String.toList_ofList
        exact ⟨_, _, [], get?_hoist_of_held hc hd htext, Node.held_leaf.2 ⟨rfl, rfl⟩, by simp⟩
      · rcases get?_displaced m name hc ho v k with
          ⟨h0, -⟩ | ⟨t, w', ht, htext, hne', h⟩ | ⟨-, -, h⟩
        · exact absurd h0 hkey
        · -- an entry of that name would have stood beside the container without conflict
          refine absurd (Node.entry_unique hm.named hk hget (Node.follows_nil d) ht.follows ?_) hkey
          simpa using htext
        · exact ⟨k, d, u, h ▸ hk, hd, rfl⟩

/-- A scalar under a name that holds a container. -/
theorem inserted_displaced (hm : Normal (.map m)) (hname : IsName name.toList)
    (hget : m.get? name = some c) (ho : c.opener ≠ none) (v : Value) :
    Inserted (.map m) (.map (hoist (m.insert name (.leaf v)) name.toList c)) v [.name name]
      ('.' :: name.toList) := by
  have hself := get?_displaced_self m name (hm.entry hget) ho v
  refine ⟨normal_displaced hm hname hget ho v, ?_, rfl, '.' :: name.toList, ?_,
    updates_displaced hm hname hget ho v⟩
  · intro hnil
    rw [hnil] at hself
    simp at hself
  · have hlands : Lands (.map m) (.map (hoist (m.insert name (.leaf v)) name.toList c)) v
        [.name name] ('.' :: name.toList) (continued [.name name]) :=
      .exact (Node.at?_name_eq_some.2 ⟨_, _, rfl, hself, rfl⟩)
    simpa using hlands

end LayeredConfig.Structure
