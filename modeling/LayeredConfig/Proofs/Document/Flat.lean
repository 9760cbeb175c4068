import LayeredConfig.Flatten
import LayeredConfig.Proofs.Document.Normal
import LayeredConfig.Proofs.OrderedMap
import Mathlib.Data.List.Nodup

/-!
# Flattening a document

Flattening lists the ends of a document: each scalar and each null slot under the text of its path.
No two ends of a normal document have one text, so none of them is overwritten on the way
(`entries_flatten`).
-/

namespace LayeredConfig

namespace Value

/-- A value without members or items. -/
def IsScalar : Value → Prop
  | .array _ => False
  | .object _ => False
  | _ => True

instance : DecidablePred IsScalar
  | .array _ | .object _ => isFalse id
  | .null | .bool _ | .number _ | .string _ => isTrue trivial

theorem IsScalar.leaves {v : Value} (h : v.IsScalar) (path : List Char) :
    v.leaves path = [(path, v)] := by
  cases v with
  | array | object => exact h.elim
  | null | bool | number | string => rw [Value.leaves]

end Value

namespace Node

open Key (Segment)
open Key.text (continued)

/-- The scalars and null slots of a node, with their texts behind `path`. -/
def flatEnds (path : List Char) (ends : List (List Segment × Option Value)) :
    List (List Char × Value) :=
  ends.map fun e => (path ++ continued e.1, e.2.getD .null)

/-- All values at some ends are scalars. -/
def ScalarEnds (ends : List (List Segment × Option Value)) : Prop :=
  ∀ e ∈ ends, ∀ v ∈ e.2, v.IsScalar

theorem scalarEnds_append {a b : List (List Segment × Option Value)} :
    ScalarEnds (a ++ b) ↔ ScalarEnds a ∧ ScalarEnds b := by
  simp only [ScalarEnds, List.forall_mem_append]

theorem scalarEnds_map {ends : List (List Segment × Option Value)} (g : Segment) :
    ScalarEnds (ends.map fun e => (g :: e.1, e.2)) ↔ ScalarEnds ends := by
  simp only [ScalarEnds, List.forall_mem_map]

theorem flatEnds_map (path : List Char) (g : Segment) (ends : List (List Segment × Option Value)) :
    flatEnds path (ends.map fun e => (g :: e.1, e.2)) = flatEnds (path ++ continued [g]) ends := by
  unfold flatEnds
  rw [List.map_map]
  congr 1
  funext e
  have happend := Key.continued_append [g] e.1
  rw [List.singleton_append] at happend
  simp [happend]

mutual

theorem leaves_toValue (path : List Char) :
    ∀ n : Node, ScalarEnds n.ends → n.toValue.leaves path = flatEnds path n.ends
  | .map entries, h => by
    rw [toValue, Value.leaves, ends]
    exact memberLeaves_toValues path entries h
  | .list items, h => by
    rw [toValue, Value.leaves, ends]
    exact itemLeaves_toValues path 0 items h
  | .leaf v, h => by
    have hv : v.IsScalar := h ([], some v) (by simp [ends]) v rfl
    simp [toValue, hv.leaves, ends, flatEnds]
  | .null, _ => by simp [toValue, Value.leaves, ends, flatEnds]

theorem memberLeaves_toValues (path : List Char) :
    ∀ entries, ScalarEnds (entryEnds entries) →
      Value.memberLeaves path (entriesToValues entries) = flatEnds path (entryEnds entries)
  | [], _ => by simp [entriesToValues, Value.memberLeaves, entryEnds, flatEnds]
  | (k, n) :: rest, h => by
    rw [entryEnds, scalarEnds_append, scalarEnds_map] at h
    rw [entriesToValues, Value.memberLeaves, entryEnds, leaves_toValue _ n h.1,
      memberLeaves_toValues path rest h.2]
    have hfirst := flatEnds_map path (.name k) n.ends
    simp only [Key.continued_name, Key.continued_nil, List.append_nil] at hfirst
    rw [← hfirst, flatEnds, flatEnds, flatEnds, List.map_append]

theorem itemLeaves_toValues (path : List Char) (index : Nat) :
    ∀ items, ScalarEnds (itemEnds index items) →
      Value.itemLeaves path index (itemsToValues items) = flatEnds path (itemEnds index items)
  | [], _ => by simp [itemsToValues, Value.itemLeaves, itemEnds, flatEnds]
  | n :: rest, h => by
    rw [itemEnds, scalarEnds_append, scalarEnds_map] at h
    rw [itemsToValues, Value.itemLeaves, itemEnds, leaves_toValue _ n h.1,
      itemLeaves_toValues path (index + 1) rest h.2]
    have hfirst := flatEnds_map path (.index index) n.ends
    simp only [Key.continued_index, Key.continued_nil] at hfirst
    rw [← hfirst, flatEnds, flatEnds, flatEnds, List.map_append]

end

/-! ## Different ends have different texts -/

theorem nodup_entryEnds {entries : List (String × Node)} (hnames : (entries.map Prod.fst).Nodup)
    (h : ∀ e ∈ entries, (e.2.ends.map Prod.fst).Nodup) : ((entryEnds entries).map Prod.fst).Nodup := by
  induction entries with
  | nil => simp [entryEnds]
  | cons e rest ih =>
      obtain ⟨k, n⟩ := e
      obtain ⟨hnew, hnames⟩ := List.nodup_cons.1 hnames
      rw [entryEnds, List.map_append, List.nodup_append]
      refine ⟨?_, ih hnames fun e he => h e (List.mem_cons_of_mem _ he), ?_⟩
      · have hfirst := h (k, n) List.mem_cons_self
        rw [List.map_map]
        have hmap := hfirst.map (List.cons_injective (a := Segment.name k))
        rwa [List.map_map] at hmap
      · -- an end of a later entry starts with another name
        rintro p hp q hq rfl
        simp only [List.mem_map, Prod.exists] at hp hq
        obtain ⟨_, _, ⟨p', o, -, ⟨⟩⟩, rfl⟩ := hp
        obtain ⟨p'', o', hmem, htext⟩ := hq
        obtain ⟨k', n', q', hmem', -, hpath⟩ := mem_entryEnds.1 hmem
        obtain rfl : k' = k := by
          have := hpath.symm.trans htext
          simpa using (List.cons.inj this).1
        exact hnew (List.mem_map.2 ⟨_, hmem', rfl⟩)

theorem nodup_itemEnds {items : List Node} {index : Nat}
    (h : ∀ n ∈ items, (n.ends.map Prod.fst).Nodup) : ((itemEnds index items).map Prod.fst).Nodup := by
  induction items generalizing index with
  | nil => simp [itemEnds]
  | cons n rest ih =>
      rw [itemEnds, List.map_append, List.nodup_append]
      refine ⟨?_, ih fun n hn => h n (List.mem_cons_of_mem _ hn), ?_⟩
      · have hfirst := h n List.mem_cons_self
        rw [List.map_map]
        have hmap := hfirst.map (List.cons_injective (a := Segment.index index))
        rwa [List.map_map] at hmap
      · -- an end of a later item starts with a larger index
        rintro p hp q hq rfl
        simp only [List.mem_map, Prod.exists] at hp hq
        obtain ⟨_, _, ⟨p', o, -, ⟨⟩⟩, rfl⟩ := hp
        obtain ⟨p'', o', hmem, htext⟩ := hq
        obtain ⟨i, n', q', -, -, hpath⟩ := mem_itemEnds.1 hmem
        have hindex := (List.cons.inj (hpath.symm.trans htext)).1
        have : index + 1 + i = index := by simpa using hindex
        omega

theorem Normal.nodup_ends {n : Node} (hn : n.Normal) : (n.ends.map Prod.fst).Nodup := by
  induction hn with
  | leaf v => simp [ends]
  | null => simp [ends]
  | @map m distinct named filled entries ih =>
      rw [ends]
      exact nodup_entryEnds distinct fun e he =>
        ih e.1 e.2 ((NodeMap.mem_iff_get? distinct).1 he)
  | @list items last filled elements ih =>
      rw [ends]
      refine nodup_itemEnds fun n hn => ?_
      obtain ⟨i, hi⟩ := List.getElem?_of_mem hn
      exact ih i n hi

/-- The tails of the ends of a normal node are distinct. -/
theorem Normal.nodup_continued_ends {n : Node} (hn : n.Normal) :
    (n.ends.map fun e => continued e.1).Nodup := by
  have hinj : ∀ p ∈ n.ends.map Prod.fst, ∀ q ∈ n.ends.map Prod.fst,
      continued p = continued q → p = q := by
    simp only [List.mem_map, Prod.exists]
    rintro p ⟨_, o, hp, rfl⟩ q ⟨_, o', hq, rfl⟩ htext
    obtain ⟨c, hc, -⟩ := (mem_ends hn).1 hp
    obtain ⟨d, hd, -⟩ := (mem_ends hn).1 hq
    exact (at?_text_injective hn hd hc htext).1
  have hmap := hn.nodup_ends.map_on hinj
  rwa [List.map_map] at hmap

/-! ## Whole documents -/

theorem documentLeaves_toValue (m : NodeMap) (h : ScalarEnds (Node.map m).ends) :
    (Node.map m).toValue.documentLeaves =
      (Node.map m).ends.map fun e => (Key.text e.1, e.2.getD .null) := by
  rw [toValue, Value.documentLeaves, ends]
  rw [ends] at h
  induction m with
  | nil => simp [entriesToValues, entryEnds]
  | cons e rest ih =>
      obtain ⟨k, n⟩ := e
      rw [entryEnds, scalarEnds_append, scalarEnds_map] at h
      rw [entriesToValues, List.flatMap_cons, ih h.2, entryEnds, List.map_append, List.map_map,
        leaves_toValue _ n h.1]
      rfl

/-- The flat properties of a normal document are its ends, in order. -/
theorem entries_flatten {m : NodeMap} (hm : Normal (.map m)) (h : ScalarEnds (Node.map m).ends) :
    (Node.map m).toValue.flatten.entries =
      (Node.map m).ends.map fun e => (String.ofList (Key.text e.1), e.2.getD .null) := by
  have hpoint : ∀ e ∈ (Node.map m).ends, '.' :: Key.text e.1 = continued e.1 := by
    intro e he
    rw [ends] at he
    obtain ⟨k, n, path, -, -, hpath⟩ := mem_entryEnds.1 he
    rw [hpath]
    rfl
  rw [Value.flatten, documentLeaves_toValue m h, List.map_map]
  apply OrderedMap.entries_ofList
  apply List.Nodup.of_map fun k : String => '.' :: k.toList
  have htexts := hm.nodup_continued_ends
  rw [← List.map_congr_left hpoint] at htexts
  simpa [Entries.keys, Function.comp_def] using htexts

end Node

end LayeredConfig
