import LayeredConfig.Proofs.Document.Overlay
import LayeredConfig.Proofs.Merge.Precedence
import LayeredConfig.Proofs.Structure.Reordering
import Mathlib.Data.List.Find

/-!
# Merging documents

The key of a path belongs to the family of the list that the path enters first, and merging takes a
family from one source.  So lists are merged as a whole, and merging the flat properties of documents is
overlaying the documents.

* `familyPrefix?_names`, `familyPrefix?_index` — the family of the key of a path.
* `hasFamily_flatten` — the families of the flat properties are the lists on paths of names.
* `get?_merge_flatten` — the merged properties are the flat properties of the overlay.
* `build_merge_flatten` — structuring them gives the overlay.
-/

namespace LayeredConfig

open Key (Segment IsSegment)
open Key.text (continued)
open Value (RegularMap)

/-! ## Families of paths -/

variable {names : List String} {path : List Segment} {n : String}

theorem bracket_not_mem_continued (h : ∀ g ∈ names.map Segment.name, IsSegment g) :
    '[' ∉ continued (names.map Segment.name) := by
  induction names with
  | nil => simp
  | cons n names ih =>
      obtain ⟨hn, hnames⟩ := List.forall_mem_cons.1 h
      simp only [List.map_cons, Key.continued_name, List.mem_cons, List.mem_append, not_or]
      refine ⟨by decide, fun hmem => ?_, ih hnames⟩
      exact absurd (hn.2 '[' hmem) (by decide)

theorem bracket_not_mem_text (h : ∀ g ∈ names.map Segment.name, IsSegment g) :
    '[' ∉ Key.text (names.map Segment.name) := by
  intro hmem
  apply bracket_not_mem_continued h
  cases names with
  | nil => simp [Key.text] at hmem
  | cons n names => exact List.mem_cons_of_mem '.' hmem

/-- The key of a path of names has no index. -/
theorem familyPrefix?_names (h : ∀ g ∈ names.map Segment.name, IsSegment g) :
    familyPrefix? (pathKey (names.map Segment.name)) = none := by
  have hnot := bracket_not_mem_text h
  rw [familyPrefix?, pathKey, String.toList_ofList]
  simp [hnot]

/-- The key of a path with an index belongs to the family of the names before it. -/
theorem familyPrefix?_index (h : ∀ g ∈ names.map Segment.name, IsSegment g) (i : Nat)
    (path : List Segment) :
    familyPrefix? (pathKey (names.map Segment.name ++ .index i :: path)) =
      some (pathKey (names.map Segment.name)) := by
  have hnot := bracket_not_mem_text h
  have htext : Key.text (names.map Segment.name ++ .index i :: path) =
      Key.text (names.map Segment.name) ++ continued (.index i :: path) := by
    cases names with
    | nil => rfl
    | cons n names =>
        rw [List.map_cons, List.cons_append, Key.text, Key.text, Key.continued_append,
          List.append_assoc]
  have htake : (Key.text (names.map Segment.name)).takeWhile (· ≠ '[') =
      Key.text (names.map Segment.name) := by
    rw [List.takeWhile_eq_self_iff]
    intro c hc
    have hne : c ≠ '[' := fun hbracket => hnot (hbracket ▸ hc)
    simpa using hne
  rw [familyPrefix?, pathKey, String.toList_ofList, htext]
  rw [Key.continued_index, if_pos (by simp), List.takeWhile_append, htake]
  simp [pathKey]

/-- A path is one of names, or enters a list behind some names. -/
theorem exists_names (path : List Segment) :
    ∃ names : List String, path = names.map Segment.name ∨
      ∃ i rest, path = names.map Segment.name ++ .index i :: rest := by
  induction path with
  | nil => exact ⟨[], .inl rfl⟩
  | cons g path ih =>
      cases g with
      | index i => exact ⟨[], .inr ⟨i, path, rfl⟩⟩
      | name n =>
          obtain ⟨names, rfl | ⟨i, rest, rfl⟩⟩ := ih
          · exact ⟨n :: names, .inl rfl⟩
          · exact ⟨n :: names, .inr ⟨i, rest, rfl⟩⟩

/-! ## Lists and families -/

/-- The flat properties have a key of a family exactly if the document holds the list. -/
theorem hasFamily_flatten {d : Value} (h : RegularMap d)
    (hnames : ∀ g ∈ (n :: names).map Segment.name, IsSegment g) :
    HasFamily d.flatten (pathKey ((n :: names).map Segment.name)) ↔ d.HoldsList (n :: names) := by
  constructor
  · rintro ⟨k, hk, hfamily⟩
    obtain ⟨v, hv⟩ := OrderedMap.mem_keys_iff.1 hk
    obtain ⟨path, rfl, hscalar⟩ := h.mem_flatten.1 (OrderedMap.mem_entries_iff.2 hv)
    have hvalid := h.isSegment hscalar
    obtain ⟨m, rest, hpath⟩ := h.exists_name hscalar
    obtain ⟨names', rfl | ⟨i, rest, rfl⟩⟩ := exists_names path
    · rw [familyPrefix?_names hvalid] at hfamily
      contradiction
    · -- the names before the index are those of the family
      have hvalid' := (List.forall_mem_append.1 hvalid).1
      rw [familyPrefix?_index hvalid'] at hfamily
      cases names' with
      | nil => simp at hpath
      | cons n' names' =>
          have hsame := pathKey_injective hvalid' hnames (Option.some.inj hfamily)
          have hscalar' : d.scalarAt? ((n :: names).map Segment.name ++ .index i :: rest) = some v := by
            rw [List.map_cons, ← hsame]
            exact hscalar
          exact Value.holdsList_of_scalarAt? hscalar'
  · intro hlist
    obtain ⟨i, path, w, hw⟩ := h.exists_scalar hlist
    refine ⟨_, OrderedMap.mem_keys_iff.2 ⟨w, ?_⟩, familyPrefix?_index hnames i path⟩
    rw [← hw]
    exact h.get?_flatten (h.isSegment hw)

/-! ## Merging documents -/

variable {top : Value} {rest : List Value}

section

variable (hmaps : ∀ d ∈ top :: rest, RegularMap d) (hkinds : (top :: rest).Pairwise Value.Compatible)

include hmaps hkinds

/-- Under the key of a path of names merging finds the scalar there in the overlay. -/
theorem get?_merge_flatten_names
    (hprofiles : ∀ d ∈ top :: rest, d.scalarAt? [.name "spring", .name "profiles"] = none)
    (hvalid : ∀ g ∈ (n :: names).map Segment.name, IsSegment g) :
    (merge ((top :: rest).map Value.flatten)).get? (pathKey ((n :: names).map Segment.name)) =
      (Value.overlayAll top rest).scalarAt? ((n :: names).map Segment.name) := by
  have hget : ∀ d ∈ top :: rest, d.flatten.get? (pathKey ((n :: names).map Segment.name)) =
      d.scalarAt? ((n :: names).map Segment.name) := fun d hd => (hmaps d hd).get?_flatten hvalid
  have hfirst : ((top :: rest).map Value.flatten).findSome?
        (·.get? (pathKey ((n :: names).map Segment.name))) =
      (Value.overlayAll top rest).scalarAt? ((n :: names).map Segment.name) := by
    rw [Value.scalarAt?_overlayAll_names hkinds, ← List.head?_filterMap, ← List.head?_filterMap,
      List.filterMap_map]
    exact congrArg List.head? (List.filterMap_congr hget)
  rw [get?_merge_of_plain (familyPrefix?_names hvalid), hfirst]
  split
  · -- no document has a scalar under the key that is left out
    rename_i hkey
    have hnames : (n :: names).map Segment.name = [.name "spring", .name "profiles"] :=
      pathKey_injective hvalid (by decide) hkey
    rw [Value.scalarAt?_overlayAll_names hkinds, hnames, eq_comm, List.findSome?_eq_none_iff]
    exact hprofiles
  · rfl

/-- Under the key of a path into a list merging finds the scalar there in the overlay. -/
theorem get?_merge_flatten_index {i : Nat}
    (hvalid : ∀ g ∈ (n :: names).map Segment.name ++ .index i :: path, IsSegment g) :
    (merge ((top :: rest).map Value.flatten)).get?
        (pathKey ((n :: names).map Segment.name ++ .index i :: path)) =
      (Value.overlayAll top rest).scalarAt? ((n :: names).map Segment.name ++ .index i :: path) := by
  have hnames := (List.forall_mem_append.1 hvalid).1
  have hfamily : ∀ d ∈ top :: rest,
      decide (HasFamily d.flatten (pathKey ((n :: names).map Segment.name))) =
        decide (d.HoldsList (n :: names)) := fun d hd => by
    rw [decide_eq_decide]
    exact hasFamily_flatten (hmaps d hd) hnames
  rw [get?_merge_of_family (familyPrefix?_index hnames i path), List.find?_map, Option.bind_map,
    Value.scalarAt?_overlayAll_index hkinds, Function.comp_def, List.find?_congr hfamily]
  cases hd : (top :: rest).find? fun d => d.HoldsList (n :: names) with
  | none => rfl
  | some d => exact (hmaps d (List.mem_of_find?_eq_some hd)).get?_flatten hvalid

/-- Merging the flat properties of documents finds what the flat properties of their overlay hold. -/
theorem get?_merge_flatten
    (hprofiles : ∀ d ∈ top :: rest, d.scalarAt? [.name "spring", .name "profiles"] = none)
    (k : String) :
    (merge ((top :: rest).map Value.flatten)).get? k =
      (Value.overlayAll top rest).flatten.get? k := by
  have hover := RegularMap.overlayAll hmaps
  by_cases hk : ∃ n path, (∀ g ∈ Segment.name n :: path, IsSegment g) ∧ k = pathKey (.name n :: path)
  · obtain ⟨n, path, hvalid, rfl⟩ := hk
    rw [hover.get?_flatten hvalid]
    obtain ⟨names, rfl | ⟨i, r, rfl⟩⟩ := exists_names path
    · exact get?_merge_flatten_names hmaps hkinds hprofiles hvalid
    · exact get?_merge_flatten_index hmaps hkinds hvalid
  · -- no document has a key that is not the one of a path
    have hnone : ∀ d, RegularMap d → d.flatten.get? k = none := fun d hd =>
      Option.eq_none_iff_forall_ne_some.2 fun v hv => hk (hd.exists_path hv)
    rw [hnone _ hover, Option.eq_none_iff_forall_ne_some]
    intro v hv
    obtain ⟨_, hmem, hsource⟩ := exists_source_of_get?_merge hv
    obtain ⟨d, hd, rfl⟩ := List.mem_map.1 hmem
    rw [hnone d (hmaps d hd)] at hsource
    contradiction

end

/-- Structuring the merged flat properties of documents gives their overlay, up to the order of members.
The documents are regular maps without a scalar under the key that is never merged, and hold values of
one kind wherever two of them hold one on a path of names. -/
theorem build_merge_flatten (hmaps : ∀ d ∈ top :: rest, RegularMap d)
    (hkinds : (top :: rest).Pairwise Value.Compatible)
    (hprofiles : ∀ d ∈ top :: rest, d.scalarAt? [.name "spring", .name "profiles"] = none) :
    ∃ m, Structure.build (merge ((top :: rest).map Value.flatten)) = .ok m ∧
      (Node.map m).toValue.Alike (Value.overlayAll top rest) :=
  Structure.exists_build_of_perm (RegularMap.overlayAll hmaps)
    (OrderedMap.perm_of_get? (get?_merge_flatten hmaps hkinds hprofiles))

/-- A document that goes over another one. -/
def ownSettings : Value := .object [
  ("server", .object [("hosts", .array [.string "a"]), ("port", .string "1")])]

/-- A document with defaults. -/
def defaultSettings : Value := .object [
  ("server", .object [("port", .string "2"), ("hosts", .array [.string "b", .string "c"]),
    ("name", .null)])]

theorem build_merge_flatten_settings :
    ∃ m, Structure.build (merge ([ownSettings, defaultSettings].map Value.flatten)) = .ok m ∧
      (Node.map m).toValue.Alike (.object [
        ("server", .object [("hosts", .array [.string "a"]), ("port", .string "1"),
          ("name", .null)])]) := by
  have hown : RegularMap ownSettings := by
    have hhosts : (Value.array [.string "a"]).Regular :=
      .array (by simp) (by decide) (by simpa using .scalar trivial)
    have hserver : (Value.object [("hosts", .array [.string "a"]), ("port", .string "1")]).Regular :=
      .object (by simp) (by decide) (by decide) (by simpa using ⟨hhosts, .scalar trivial⟩)
    exact .object (by decide) (by decide) (by simpa using hserver)
  have hdefaults : RegularMap defaultSettings := by
    have hhosts : (Value.array [.string "b", .string "c"]).Regular :=
      .array (by simp) (by decide) (by simpa using ⟨.scalar trivial, .scalar trivial⟩)
    have hserver : (Value.object [("port", .string "2"),
        ("hosts", .array [.string "b", .string "c"]), ("name", .null)]).Regular :=
      .object (by simp) (by decide) (by decide)
        (by simpa using ⟨.scalar trivial, hhosts, .scalar trivial⟩)
    exact .object (by decide) (by decide) (by simpa using hserver)
  have hkinds : Value.Compatible ownSettings defaultSettings := by
    refine Value.compatible_object_iff.2 fun k a b ha hb => ?_
    obtain ⟨rfl, rfl⟩ : k = "server" ∧ _ = a := by simpa [Entries.get?, eq_comm] using ha
    obtain rfl : _ = b := by simpa [Entries.get?] using hb
    refine Value.compatible_object_iff.2 fun k a b ha hb => ?_
    -- the list and the scalar that both documents have
    rcases List.mem_pair.1 ((Entries.mem_iff_get? (by decide)).2 ha) with h | h
    · obtain ⟨rfl, rfl⟩ := Prod.mk.inj h
      obtain rfl : _ = b := by simpa [Entries.get?] using hb
      exact Value.compatible_of_kind_ne rfl (by decide)
    · obtain ⟨rfl, rfl⟩ := Prod.mk.inj h
      obtain rfl : _ = b := by simpa [Entries.get?] using hb
      exact Value.compatible_of_kind_ne rfl (by decide)
  exact @build_merge_flatten ownSettings [defaultSettings] (by simpa using ⟨hown, hdefaults⟩)
    (by simpa using hkinds) (by decide)

end LayeredConfig
