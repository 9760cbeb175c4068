import LayeredConfig.Proofs.Document.Normal
import LayeredConfig.Structure

/-!
# Hoisting

Hoisting a node writes its scalars into a map one after another.  The scalars of a normal node have
different texts, so each of them is found afterwards under its compound name, and every other name
keeps its node.
-/

namespace LayeredConfig.Structure

open Key.text (continued)

/-- Write scalars into a map one after another. -/
def insertScalars (m : NodeMap) (scalars : List (String × Value)) : NodeMap :=
  scalars.foldl (fun m e => m.insert e.1 (.leaf e.2)) m

/-- The scalars at some ends, under names that start with `path`. -/
def scalarsAt (path : List Char) (ends : List (List Key.Segment × Option Value)) :
    List (String × Value) :=
  ends.filterMap fun e => e.2.map fun v => (String.ofList (path ++ continued e.1), v)

theorem insertScalars_append (m : NodeMap) (a b : List (String × Value)) :
    insertScalars m (a ++ b) = insertScalars (insertScalars m a) b :=
  List.foldl_append

theorem scalarsAt_append (path : List Char) (a b : List (List Key.Segment × Option Value)) :
    scalarsAt path (a ++ b) = scalarsAt path a ++ scalarsAt path b :=
  List.filterMap_append

/-- Scalars behind one more segment stand under names that start with its text. -/
theorem scalarsAt_map (path : List Char) (g : Key.Segment)
    (ends : List (List Key.Segment × Option Value)) :
    scalarsAt path (ends.map fun e => (g :: e.1, e.2)) = scalarsAt (path ++ continued [g]) ends := by
  unfold scalarsAt
  rw [List.filterMap_map]
  congr 1
  funext e
  have happend := Key.continued_append [g] e.1
  rw [List.singleton_append] at happend
  simp [happend]

mutual

theorem hoist_eq (m : NodeMap) (path : List Char) :
    ∀ n, hoist m path n = insertScalars m (scalarsAt path n.ends)
  | .map entries => hoistEntries_eq m path entries
  | .list items => hoistItems_eq m path 0 items
  | .leaf v => by simp [hoist, Node.ends, scalarsAt, insertScalars]
  | .null => by simp [hoist, Node.ends, scalarsAt, insertScalars]

theorem hoistEntries_eq (m : NodeMap) (path : List Char) :
    ∀ entries, hoistEntries m path entries = insertScalars m (scalarsAt path (Node.entryEnds entries))
  | [] => rfl
  | (k, n) :: rest => by
    rw [hoistEntries, Node.entryEnds, scalarsAt_append, insertScalars_append, scalarsAt_map,
      hoist_eq m _ n, hoistEntries_eq _ path rest]
    simp

theorem hoistItems_eq (m : NodeMap) (path : List Char) (index : Nat) :
    ∀ items, hoistItems m path index items =
      insertScalars m (scalarsAt path (Node.itemEnds index items))
  | [] => rfl
  | n :: rest => by
    rw [hoistItems, Node.itemEnds, scalarsAt_append, insertScalars_append, scalarsAt_map,
      hoist_eq m _ n, hoistItems_eq _ path (index + 1) rest]
    simp

end

theorem mem_scalarsAt {path : List Char} {n : Node} (hn : n.Normal) {k : String} {v : Value} :
    (k, v) ∈ scalarsAt path n.ends ↔ ∃ t, n.Held t v ∧ k.toList = path ++ t := by
  simp only [scalarsAt, List.mem_filterMap, Option.map_eq_some_iff, Prod.mk.injEq]
  constructor
  · rintro ⟨⟨p, o⟩, hmem, w, rfl, rfl, rfl⟩
    obtain ⟨c, hc, ho⟩ := (Node.mem_ends hn).1 hmem
    rw [Node.end?_eq_some_some.1 ho] at hc
    exact ⟨_, ⟨p, hc, rfl⟩, String.toList_ofList⟩
  · rintro ⟨_, ⟨p, hp, rfl⟩, hk⟩
    refine ⟨(p, some v), (Node.mem_ends hn).2 ⟨_, hp, rfl⟩, v, rfl, ?_, rfl⟩
    rw [← hk, String.ofList_toList]

theorem nodup_names_insertScalars {m : NodeMap} (scalars : List (String × Value))
    (h : m.names.Nodup) : (insertScalars m scalars).names.Nodup := by
  induction scalars generalizing m with
  | nil => exact h
  | cons e rest ih => exact ih (NodeMap.nodup_names_insert e.1 _ h)

theorem get?_insertScalars_of_not_mem {m : NodeMap} {scalars : List (String × Value)} {k : String}
    (h : ∀ v, (k, v) ∉ scalars) : (insertScalars m scalars).get? k = m.get? k := by
  induction scalars generalizing m with
  | nil => rfl
  | cons e rest ih =>
      have hk : k ≠ e.1 := fun hk => h e.2 (by simp [hk])
      have hrest := ih (m := m.insert e.1 (.leaf e.2)) fun v hv => h v (List.mem_cons_of_mem e hv)
      exact hrest.trans (NodeMap.get?_insert_of_ne hk)

theorem get?_insertScalars_of_mem {m : NodeMap} {scalars : List (String × Value)} {k : String}
    {v : Value} (hunique : ∀ w, (k, w) ∈ scalars → w = v) (h : (k, v) ∈ scalars) :
    (insertScalars m scalars).get? k = some (.leaf v) := by
  induction scalars generalizing m with
  | nil => simp at h
  | cons e rest ih =>
      by_cases hrest : ∃ w, (k, w) ∈ rest
      · -- a scalar that comes later under the same name has the same value
        obtain ⟨w, hw⟩ := hrest
        obtain rfl := hunique w (List.mem_cons_of_mem e hw)
        exact ih (fun w' hw' => hunique w' (List.mem_cons_of_mem e hw')) hw
      · obtain rfl : e = (k, v) := by
          rcases List.mem_cons.1 h with he | hr
          · exact he.symm
          · exact absurd ⟨v, hr⟩ hrest
        have hkeep := get?_insertScalars_of_not_mem (m := m.insert k (.leaf v))
          (not_exists.1 hrest)
        exact hkeep.trans (NodeMap.get?_insert_self m k _)

/-- A hoisted scalar is found under its compound name. -/
theorem get?_hoist_of_held {m : NodeMap} {path : List Char} {n : Node} (hn : n.Normal) {k : String}
    {t : List Char} {v : Value} (ht : n.Held t v) (hk : k.toList = path ++ t) :
    (hoist m path n).get? k = some (.leaf v) := by
  rw [hoist_eq]
  refine get?_insertScalars_of_mem ?_ ((mem_scalarsAt hn).2 ⟨t, ht, hk⟩)
  intro w hw
  obtain ⟨t', ht', hk'⟩ := (mem_scalarsAt hn).1 hw
  obtain rfl : t' = t := List.append_cancel_left (hk'.symm.trans hk)
  exact ht'.unique hn ht

/-- Hoisting leaves all other names alone. -/
theorem get?_hoist_of_not_held {m : NodeMap} {path : List Char} {n : Node} (hn : n.Normal)
    {k : String} (h : ∀ t v, n.Held t v → k.toList ≠ path ++ t) :
    (hoist m path n).get? k = m.get? k := by
  rw [hoist_eq]
  apply get?_insertScalars_of_not_mem
  intro v hv
  obtain ⟨t, ht, hk⟩ := (mem_scalarsAt hn).1 hv
  exact h t v ht hk

theorem nodup_names_hoist {m : NodeMap} (path : List Char) (n : Node) (h : m.names.Nodup) :
    (hoist m path n).names.Nodup := by
  rw [hoist_eq]
  exact nodup_names_insertScalars _ h

end LayeredConfig.Structure
