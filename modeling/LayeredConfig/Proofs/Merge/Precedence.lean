import LayeredConfig.Proofs.Merge.Layers

/-!
# Precedence

What merging finds under a key, and the order of the merged keys, in terms of the sources alone.

* `get?_merge_of_plain` — the first source that has a plain key gives its value.
* `get?_merge_of_family` — the first source that has any key of a family gives all of the family.
* `keys_merge` — the plain keys in the order in which they are read, then the families in the order in
  which their names are, where sources are read from the one of lowest precedence up.
-/

namespace LayeredConfig

open Entries

/-- The keys of sources given in order of precedence, as they are read: from the lowest source up. -/
def reading (sources : List Properties) : List String := sources.reverse.flatMap OrderedMap.keys

/-- The keys of a family in the first source that has any. -/
def familyKeys (sources : List Properties) (name : String) : List String :=
  match sources.find? fun source => HasFamily source name with
  | some source => source.keys.filter fun k => familyPrefix? k = some name
  | none => []

theorem reading_cons (source : Properties) (sources : List Properties) :
    reading (source :: sources) = reading sources ++ source.keys := by
  simp [reading]

namespace Merge

variable {sources : List Properties} {k name : String}

theorem get?_plain_layers (hk : familyPrefix? k = none) (sources : List Properties) :
    get? k (layers sources).plain = sources.findSome? (·.get? k) := by
  induction sources with
  | nil => rfl
  | cons source sources ih =>
      have hnodup : (keys (plainEntries source.entries)).Nodup := by
        rw [keys_plainEntries]
        exact source.nodup.filter _
      rw [layers_cons, Layers.add, get?_putAll_of_nodup hnodup, get?_plainEntries, if_pos hk, ih,
        List.findSome?_cons, OrderedMap.get?]
      cases get? k source.entries <;> rfl

theorem get?_families_layers (sources : List Properties) (name : String) :
    get? name (layers sources).families =
      (sources.find? fun source => HasFamily source name).map (family ·.entries name) := by
  induction sources with
  | nil => rfl
  | cons source sources ih =>
      rw [layers_cons, Layers.add, get?_putAll_of_nodup (nodup_keys_families _), get?_families, ih]
      by_cases h : HasFamily source name <;> simp [h]

/-- A key with a bracket is found in its family. -/
theorem get?_flatMap {groups : List (String × List (String × Value))} (h : Grouped groups)
    (hk : familyPrefix? k = some name) :
    get? k (groups.flatMap (·.2)) = (get? name groups).bind (get? k) := by
  have hfamily := get?_family (groups.flatMap (·.2)) name k
  rw [if_pos hk, family_flatMap h] at hfamily
  rw [← hfamily]
  cases get? name groups <;> rfl

theorem keys_plain_layers (sources : List Properties) :
    keys (layers sources).plain =
      (firstOccurrences (reading sources)).filter fun k => (familyPrefix? k).isNone := by
  induction sources with
  | nil => rfl
  | cons source sources ih =>
      rw [layers_cons, Layers.add, keys_putAll (wellFormed_layers sources).nodup, ih,
        ← firstOccurrences_filter, keys_plainEntries, firstOccurrences_append_left,
        ← List.filter_append, firstOccurrences_filter, reading_cons]
      rfl

theorem keys_families_layers (sources : List Properties) :
    keys (layers sources).families = firstOccurrences ((reading sources).filterMap familyPrefix?) := by
  induction sources with
  | nil => rfl
  | cons source sources ih =>
      have hright : ∀ a b : List String,
          firstOccurrences (a ++ firstOccurrences b) = firstOccurrences (a ++ b) := fun a b => by
        rw [firstOccurrences_append, firstOccurrences_append,
          firstOccurrences_of_nodup (nodup_firstOccurrences b)]
      rw [layers_cons, Layers.add, keys_putAll (wellFormed_layers sources).grouped.nodup, ih,
        keys_families, firstOccurrences_append_left, hright, reading_cons, List.filterMap_append]
      rfl

end Merge

open Merge

variable {k name : String}

/-- The first source that has a plain key gives its value; the active profiles are left out. -/
theorem get?_merge_of_plain (hk : familyPrefix? k = none) (sources : List Properties) :
    (merge sources).get? k =
      if k = activeProfilesKey then none else sources.findSome? (·.get? k) := by
  have h := wellFormed_layers sources
  have hfamilies : get? k ((layers sources).families.flatMap (·.2)) = none := by
    have hplain := get?_plainEntries ((layers sources).families.flatMap (·.2)) k
    rw [if_pos hk, plainEntries_flatMap h.grouped] at hplain
    exact hplain.symm
  have hvisible := get?_filter (fun k => decide (k ≠ activeProfilesKey)) (layers sources).plain k
  rw [OrderedMap.get?, entries_merge, get?_append, hfamilies, Option.or_none, Layers.visible,
    hvisible, get?_plain_layers hk]
  by_cases hprofiles : k = activeProfilesKey <;> simp [hprofiles]

/-- The first source that has any key of a family gives all of the family. -/
theorem get?_merge_of_family (hk : familyPrefix? k = some name) (sources : List Properties) :
    (merge sources).get? k =
      (sources.find? fun source => HasFamily source name).bind (·.get? k) := by
  have h := wellFormed_layers sources
  have hvisible : get? k (layers sources).visible = none := by
    rw [get?_eq_none_iff]
    intro hmem
    rw [h.isPlain_visible hmem] at hk
    contradiction
  rw [OrderedMap.get?, entries_merge, get?_append, hvisible, Option.none_or,
    get?_flatMap h.grouped hk, get?_families_layers, Option.bind_map]
  refine Option.bind_congr fun source _ => ?_
  rw [Function.comp_apply, get?_family, if_pos hk]
  rfl

/-- What is found has come from a source. -/
theorem exists_source_of_get?_merge {sources : List Properties} {v : Value}
    (h : (merge sources).get? k = some v) : ∃ source ∈ sources, source.get? k = some v := by
  cases hk : familyPrefix? k with
  | none =>
      rw [get?_merge_of_plain hk] at h
      split at h
      · contradiction
      · exact List.exists_of_findSome?_eq_some h
  | some name =>
      rw [get?_merge_of_family hk] at h
      obtain ⟨source, hsource, h⟩ := Option.bind_eq_some_iff.1 h
      exact ⟨source, List.mem_of_find?_eq_some hsource, h⟩

/-- Plain keys in the order in which they are read, then the families in the order of their names. -/
theorem keys_merge (sources : List Properties) :
    (merge sources).keys =
      (firstOccurrences (reading sources)).filter
          (fun k => (familyPrefix? k).isNone && decide (k ≠ activeProfilesKey)) ++
        (firstOccurrences ((reading sources).filterMap familyPrefix?)).flatMap
          (familyKeys sources) := by
  have h := wellFormed_layers sources
  have hfamily : ∀ e ∈ (layers sources).families, keys e.2 = familyKeys sources e.1 := by
    intro e he
    have hget := (mem_iff_get? h.grouped.nodup).1 he
    rw [get?_families_layers, Option.map_eq_some_iff] at hget
    obtain ⟨source, hsource, hentries⟩ := hget
    rw [← hentries, keys_family, familyKeys, hsource]
    rfl
  rw [OrderedMap.keys, entries_merge, keys_append, Layers.visible]
  congr 1
  · rw [keys_filter (fun k => decide (k ≠ activeProfilesKey)), keys_plain_layers,
      List.filter_filter]
    refine List.filter_congr fun k _ => ?_
    rw [Bool.and_comm]
  · rw [← keys_families_layers, keys, keys, List.map_flatMap, List.flatMap_map]
    exact List.flatMap_congr hfamily

/-- Merging sources given in order of precedence.  A plain key has the value of the first source that
has it, and all keys of a family are those of the first source that has any of them.  Plain keys come
first, in the order in which they appear when the sources are read from the lowest up, then the families
in the order in which their names appear, each as its source has it. -/
theorem merge_spec (sources : List Properties) :
    (∀ k, familyPrefix? k = none → (merge sources).get? k =
        if k = activeProfilesKey then none else sources.findSome? (·.get? k)) ∧
      (∀ k name, familyPrefix? k = some name → (merge sources).get? k =
        (sources.find? fun source => HasFamily source name).bind (·.get? k)) ∧
      ∃ plain families, (merge sources).keys = plain ++ families.flatMap (familyKeys sources) ∧
        (∀ k ∈ plain, familyPrefix? k = none) ∧ InOrderOf plain (reading sources) ∧
          InOrderOf families ((reading sources).filterMap familyPrefix?) := by
  refine ⟨fun k hk => get?_merge_of_plain hk sources,
    fun k name hk => get?_merge_of_family hk sources, _, _, keys_merge sources, ?_, ?_, ?_⟩
  · intro k hk
    have hplain := (List.mem_filter.1 hk).2
    simp only [Bool.and_eq_true, Option.isNone_iff_eq_none] at hplain
    exact hplain.1
  · exact (inOrderOf_firstOccurrences (reading sources)).filter _
  · exact inOrderOf_firstOccurrences _

/-- A source over another one, with a plain key and a family that both of them have. -/
def overlappingSources : List Properties := [
  .ofList [("list[0]", .string "a"), ("name", .string "b")],
  .ofList [("spring.profiles", .string "c"), ("name", .string "d"), ("list[0]", .string "e"),
    ("list[1]", .string "f"), ("port", .string "g")]]

theorem merge_spec_overlappingSources :
    (merge overlappingSources).get? "name" = some (.string "b") ∧
      (merge overlappingSources).get? "port" = some (.string "g") ∧
        (merge overlappingSources).get? "spring.profiles" = none ∧
          (merge overlappingSources).get? "list[0]" = some (.string "a") ∧
            (merge overlappingSources).get? "list[1]" = none := by
  obtain ⟨hplain, hfamily, -⟩ := merge_spec overlappingSources
  refine ⟨?_, ?_, ?_, ?_, ?_⟩
  · rw [hplain "name" (by decide)]
    decide
  · rw [hplain "port" (by decide)]
    decide
  · rw [hplain "spring.profiles" (by decide)]
    decide
  · rw [hfamily "list[0]" "list" (by decide)]
    decide
  · rw [hfamily "list[1]" "list" (by decide)]
    decide

end LayeredConfig
