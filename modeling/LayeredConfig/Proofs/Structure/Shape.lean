import LayeredConfig.Proofs.Structure.Run
import Mathlib

/-!
# The shape of built documents

Containers are made before the value goes into them, lists are padded with nulls, and a scalar may
displace a whole subtree.  None of this is left behind in a built document: below the root no container
is empty, a list ends in something and is as short as an index allows, and a name with a point or a
bracket stands only beside the entry that it conflicts with.

* `Below` — a node inside another one; `Normal.exists_path_of_below` gives the path to it.
* `index_le_of_build` — an index on the way to a scalar was read from a key, so it is bounded.
* `Shaped` — the shape, and `shaped_buildRoot` that a built document has it.
-/

namespace LayeredConfig

open Key (Segment IsSegment)

namespace Node

/-- The entries of a map and the elements of a list. -/
inductive Child : Node → Node → Prop
  | entry {m : NodeMap} {k : String} {c : Node} (h : (k, c) ∈ m) : Child (.map m) c
  | element {items : List Node} {c : Node} (h : c ∈ items) : Child (.list items) c

/-- A node stands inside another one, at any depth. -/
def Below : Node → Node → Prop := Relation.TransGen Child

variable {n c : Node}

theorem Normal.exists_segment_of_child (hn : n.Normal) (h : Child n c) :
    ∃ g, n.at? [g] = some c := by
  cases h with
  | @entry m k c h =>
      have hget := (NodeMap.mem_iff_get? hn.distinct).1 h
      exact ⟨.name k, at?_name_eq_some.2 ⟨m, c, rfl, hget, rfl⟩⟩
  | @element items c h =>
      obtain ⟨i, hget⟩ := List.mem_iff_getElem?.1 h
      exact ⟨.index i, at?_index_eq_some.2 ⟨items, c, rfl, hget, rfl⟩⟩

/-- What stands inside a normal document has a path. -/
theorem Normal.exists_path_of_below (hn : n.Normal) (h : Below n c) :
    ∃ path, path ≠ [] ∧ n.at? path = some c := by
  induction h with
  | single hchild =>
      obtain ⟨g, hg⟩ := hn.exists_segment_of_child hchild
      exact ⟨[g], by simp, hg⟩
  | tail _ hchild ih =>
      obtain ⟨path, -, hpath⟩ := ih
      obtain ⟨g, hg⟩ := (hn.at? hpath).exists_segment_of_child hchild
      exact ⟨path ++ [g], by simp, at?_append_eq_some.2 ⟨_, hpath, hg⟩⟩

end Node

namespace Structure

open Node (Normal Below)

variable {m : NodeMap} {flat : Properties}

/-- Every index on the way to a scalar of a built document was read from a key. -/
theorem index_le_of_build (h : build flat = .ok m) {path : List Segment} {v : Value} {i : Nat}
    (hpath : (Node.map m).at? path = some (.leaf v)) (hi : .index i ∈ path) : i ≤ Key.maxIndex := by
  have hfrom := held_insertAll_imp Node.normal_empty_map h ⟨path, hpath, rfl⟩
  rcases hfrom with ⟨-, -, segments, -, hspells, -⟩ | hempty
  · suffices hmem : .index i ∈ segments from hspells.isSegment _ hmem
    rcases Node.at?_of_spells (normal_build h) hpath hspells with
      rfl | ⟨p, x, r, u, c, rfl, -, -, rfl, -⟩
    · exact hi
    · -- a compound name ends the path, so the index stands before it
      have hp : .index i ∈ p := by simpa using hi
      exact List.mem_append_left _ hp
  · simp [Node.held_map] at hempty

/-- A list of a built document has at most as many elements as there are indices: its last element is
filled, so a path to a scalar leads through it. -/
theorem length_le_of_build (h : build flat = .ok m) {path : List Segment} {items : List Node}
    (hpath : (Node.map m).at? path = some (.list items)) : items.length ≤ Key.maxIndex + 1 := by
  have hlist := (normal_build h).at? hpath
  by_contra hlong
  have hlt : Key.maxIndex + 1 < items.length := by omega
  obtain ⟨j, c, hj, hget, hc⟩ := hlist.exists_filled_element (List.getElem?_eq_getElem hlt)
  obtain ⟨-, v, q, hq, -⟩ := (hlist.element hget).exists_held hc
  have hleaf : (Node.map m).at? (path ++ .index j :: q) = some (.leaf v) :=
    Node.at?_append_eq_some.2 ⟨_, hpath, Node.at?_index_eq_some.2 ⟨items, c, rfl, hget, hq⟩⟩
  have hle : j ≤ Key.maxIndex := index_le_of_build h hleaf (by simp)
  omega

/-- The shape of an entry.  A name that holds a separator belongs to a scalar, and the text before its
first separator names an entry that does not go on with this separator. -/
structure ShapedEntry (m : NodeMap) (k : String) (n : Node) : Prop where
  ne_null : n ≠ .null
  name_ne_empty : k ≠ ""
  compound : ∀ front c rest, k.toList = front ++ c :: rest → (∀ d ∈ front, d ≠ '.' ∧ d ≠ '[') →
    c = '.' ∨ c = '[' →
      (∃ v, n = .leaf v) ∧ ∃ b, (String.ofList front, b) ∈ m ∧
        (c = '.' → ∀ child, b ≠ .map child) ∧ (c = '[' → ∀ items, b ≠ .list items)

/-- The shape of a list. -/
structure ShapedList (items : List Node) : Prop where
  ne_nil : items ≠ []
  length_le : items.length ≤ 65536
  last_ne_null : items.getLast? ≠ some .null

/-- The shape of a document; its root may be empty. -/
structure Shaped (m : NodeMap) : Prop where
  root_entries : ∀ k n, (k, n) ∈ m → ShapedEntry m k n
  maps : ∀ child, Below (.map m) (.map child) →
    child ≠ [] ∧ ∀ k n, (k, n) ∈ child → ShapedEntry child k n
  lists : ∀ items, Below (.map m) (.list items) → ShapedList items

/-- A text is divided at its first separator. -/
theorem stem_of_split {front rest : List Char} {c : Char} (hfront : ∀ d ∈ front, d ≠ '.' ∧ d ≠ '[')
    (hc : c = '.' ∨ c = '[') :
    Key.stem (front ++ c :: rest) = front ∧ Key.behindStem (front ++ c :: rest) = c :: rest := by
  have hseparator : Key.Detached (c :: rest) := by
    rcases hc with rfl | rfl <;> exact Key.detached_cons.2 (by decide)
  have hplain : ∀ d ∈ front, Key.isNameChar d = true := fun d hd => by
    simpa [Key.isNameChar] using hfront d hd
  rw [Key.stem_append hseparator, Key.behindStem_append hseparator, Key.behindStem_eq_nil_iff.2 hplain]
  exact ⟨List.takeWhile_eq_self_iff.2 hplain, rfl⟩

theorem shapedEntry_of_normal (hm : Normal (.map m)) {k : String} {n : Node} (h : (k, n) ∈ m) :
    ShapedEntry m k n := by
  have hget := (NodeMap.mem_iff_get? hm.distinct).1 h
  have hfilled := hm.entry_filled hget
  obtain ⟨hstem, hcompound⟩ := hm.named k n hget
  refine ⟨?_, ?_, ?_⟩
  · rintro rfl
    exact hfilled
  · rintro rfl
    exact hstem rfl
  · intro front c rest hk hfront hc
    obtain ⟨hfront, hbehind⟩ := stem_of_split hfront hc
    rw [hk, hfront, hbehind] at hcompound
    obtain ⟨hleaf, b, hb, hopener⟩ := hcompound (List.cons_ne_nil c rest)
    refine ⟨hleaf, b, (NodeMap.mem_iff_get? hm.distinct).2 hb, ?_, ?_⟩
    · rintro rfl child rfl
      exact hopener rfl
    · rintro rfl items rfl
      exact hopener rfl

theorem shaped_build (h : build flat = .ok m) : Shaped m := by
  have hm := normal_build h
  refine ⟨fun k n => shapedEntry_of_normal hm, ?_, ?_⟩
  · intro child hbelow
    obtain ⟨path, hne, hpath⟩ := hm.exists_path_of_below hbelow
    exact ⟨hm.filled_at? hpath hne Node.noConfusion,
      fun k n => shapedEntry_of_normal (hm.at? hpath)⟩
  · intro items hbelow
    obtain ⟨path, hne, hpath⟩ := hm.exists_path_of_below hbelow
    exact ⟨hm.filled_at? hpath hne Node.noConfusion, length_le_of_build h hpath,
      fun hlast => (hm.at? hpath).last_ne_null hlast rfl⟩

/-- Every document that is built and keeps its wrapper is a map of this shape. -/
theorem shaped_buildRoot {root : Node} {taken : Bool} (h : buildRoot false flat = .ok (root, taken)) :
    taken = false ∧ ∃ m, root = .map m ∧ Shaped m := by
  obtain ⟨m, hbuild, hroot⟩ := map_eq_ok.1 h
  obtain ⟨rfl, rfl⟩ := Prod.mk.inj hroot
  exact ⟨rfl, m, rfl, shaped_build hbuild⟩

/-- Properties with a displaced list, a key that cannot go on, and a padded list. -/
def displacedProperties : Properties :=
  .ofList [("x[2].y", .bool true), ("x", .null), ("x.y.z", .string "a"), ("l[1]", .bool false)]

theorem shaped_buildRoot_displacedProperties :
    ∃ m, buildRoot false displacedProperties = .ok (.map m, false) ∧ Shaped m ∧
      ("x[2].y", .leaf (.bool true)) ∈ m ∧ ("l", .list [.null, .leaf (.bool false)]) ∈ m := by
  have hbuild : buildRoot false displacedProperties = .ok (.map
      [("x", .leaf .null), ("x[2].y", .leaf (.bool true)), ("x.y.z", .leaf (.string "a")),
        ("l", .list [.null, .leaf (.bool false)])], false) := by cbv
  obtain ⟨-, m, ⟨⟩, hshaped⟩ := shaped_buildRoot hbuild
  exact ⟨_, hbuild, hshaped, by simp, by simp⟩

end Structure

end LayeredConfig
