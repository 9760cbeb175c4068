import LayeredConfig.Merge
import LayeredConfig.Proofs.OrderedMap
import Mathlib.Data.List.Nodup

/-!
# Layers of merged sources

Merging keeps plain properties and families apart.  What has been read from some sources is well formed:
plain keys have no bracket, and each family is a non-empty run of keys with its own name.  So the parts
can be read off the merged properties again, and they tell all about them.

* `families_flatMap` — families written one behind the other are the families of what is written.
* `layers_append` — the layers of two lists of sources are those of the first written over the others.
* `entries_merge` — merged properties are the plain ones without the active profiles, then the families.
-/

namespace LayeredConfig

open Entries

/-- Whether a source has a key of a family. -/
def HasFamily (source : Properties) (name : String) : Prop :=
  ∃ k ∈ source.keys, familyPrefix? k = some name

instance (source : Properties) (name : String) : Decidable (HasFamily source name) :=
  inferInstanceAs (Decidable (∃ k ∈ source.keys, familyPrefix? k = some name))

theorem familyPrefix?_activeProfilesKey : familyPrefix? activeProfilesKey = none := by decide

namespace Merge

variable {entries : List (String × Value)} {name k : String}
  {groups : List (String × List (String × Value))}

/-! ## The parts of one source -/

theorem get?_plainEntries (entries : List (String × Value)) (k : String) :
    get? k (plainEntries entries) = if familyPrefix? k = none then get? k entries else none := by
  have hfilter := get?_filter (fun k => (familyPrefix? k).isNone) entries k
  simpa [plainEntries] using hfilter

theorem keys_plainEntries (entries : List (String × Value)) :
    keys (plainEntries entries) = (keys entries).filter fun k => (familyPrefix? k).isNone :=
  keys_filter (fun k => (familyPrefix? k).isNone) entries

theorem get?_family (entries : List (String × Value)) (name k : String) :
    get? k (family entries name) =
      if familyPrefix? k = some name then get? k entries else none := by
  have hfilter := get?_filter (fun k => decide (familyPrefix? k = some name)) entries k
  simpa [family] using hfilter

theorem keys_family (entries : List (String × Value)) (name : String) :
    keys (family entries name) = (keys entries).filter fun k => familyPrefix? k = some name :=
  keys_filter (fun k => decide (familyPrefix? k = some name)) entries

theorem family_append (a b : List (String × Value)) (name : String) :
    family (a ++ b) name = family a name ++ family b name := List.filter_append ..

theorem plainEntries_append (a b : List (String × Value)) :
    plainEntries (a ++ b) = plainEntries a ++ plainEntries b := List.filter_append ..

theorem families_eq (entries : List (String × Value)) :
    families entries = (firstOccurrences ((keys entries).filterMap familyPrefix?)).map
      fun name => (name, family entries name) := by
  rw [keys, List.filterMap_map]
  rfl

theorem keys_families (entries : List (String × Value)) :
    keys (families entries) = firstOccurrences ((keys entries).filterMap familyPrefix?) := by
  rw [families_eq, keys, List.map_map]
  exact List.map_id _

theorem nodup_keys_families (entries : List (String × Value)) : (keys (families entries)).Nodup := by
  rw [keys_families]
  exact nodup_firstOccurrences _

theorem get?_families (source : Properties) (name : String) :
    get? name (families source.entries) =
      if HasFamily source name then some (family source.entries name) else none := by
  have hmem : name ∈ keys (families source.entries) ↔ HasFamily source name := by
    rw [keys_families, mem_firstOccurrences, List.mem_filterMap]
    rfl
  split_ifs with h
  · have hname := hmem.2 h
    rw [keys_families] at hname
    refine (mem_iff_get? (nodup_keys_families _)).1 ?_
    rw [families_eq]
    exact List.mem_map_of_mem hname
  · exact get?_eq_none_iff.2 (mt hmem.1 h)

/-! ## Families one behind the other -/

/-- Entries of one family, at least one of them, under distinct keys. -/
structure IsFamily (name : String) (entries : List (String × Value)) : Prop where
  ne_nil : entries ≠ []
  nodup : (keys entries).Nodup
  named : ∀ k ∈ keys entries, familyPrefix? k = some name

/-- Families under distinct names. -/
structure Grouped (groups : List (String × List (String × Value))) : Prop where
  nodup : (keys groups).Nodup
  isFamily : ∀ name entries, get? name groups = some entries → IsFamily name entries

theorem IsFamily.family_self (h : IsFamily name entries) : family entries name = entries :=
  List.filter_eq_self.2 fun e he => by simpa using h.named e.1 (List.mem_map_of_mem he)

theorem IsFamily.family_of_ne (h : IsFamily name entries) (hne : name ≠ k) :
    family entries k = [] :=
  List.filter_eq_nil_iff.2 fun e he => by simpa [h.named e.1 (List.mem_map_of_mem he)] using hne

theorem IsFamily.plainEntries (h : IsFamily name entries) : plainEntries entries = [] :=
  List.filter_eq_nil_iff.2 fun e he => by simp [h.named e.1 (List.mem_map_of_mem he)]

theorem IsFamily.firstOccurrences (h : IsFamily name entries) :
    firstOccurrences ((keys entries).filterMap familyPrefix?) = [name] := by
  have hnames : (keys entries).filterMap familyPrefix? = (keys entries).map fun _ => name := by
    rw [← List.filterMap_eq_map]
    exact List.filterMap_congr h.named
  obtain ⟨e, rest, rfl⟩ := List.exists_cons_of_ne_nil h.ne_nil
  rw [hnames, keys_cons, List.map_cons, LayeredConfig.firstOccurrences, List.filter_eq_nil_iff.2]
  simp

theorem isFamily_family {source : Properties} (h : HasFamily source name) :
    IsFamily name (family source.entries name) where
  ne_nil := by
    obtain ⟨k, hk, hname⟩ := h
    obtain ⟨e, he, rfl⟩ := List.mem_map.1 hk
    exact List.ne_nil_of_mem (List.mem_filter.2 ⟨he, by simpa using hname⟩)
  nodup := by
    rw [keys_family]
    exact source.nodup.filter _
  named := by
    intro k hk
    rw [keys_family, List.mem_filter] at hk
    simpa using hk.2

theorem grouped_families (source : Properties) : Grouped (families source.entries) where
  nodup := nodup_keys_families _
  isFamily := by
    intro name entries h
    rw [get?_families] at h
    split_ifs at h with hname
    exact Option.some.inj h ▸ isFamily_family hname

theorem grouped_nil : Grouped [] := ⟨List.nodup_nil, by simp [get?]⟩

/-- Families written over others. -/
theorem Grouped.putAll {groups' : List (String × List (String × Value))} (h : Grouped groups)
    (h' : Grouped groups') : Grouped (putAll groups groups') where
  nodup := nodup_keys_putAll h.nodup
  isFamily := by
    intro name entries hget
    rw [get?_putAll_of_nodup h'.nodup, Option.or_eq_some_iff] at hget
    rcases hget with hget | ⟨-, hget⟩
    · exact h'.isFamily name entries hget
    · exact h.isFamily name entries hget

theorem Grouped.mem (h : Grouped groups) {e : String × List (String × Value)} (he : e ∈ groups) :
    IsFamily e.1 e.2 :=
  h.isFamily e.1 e.2 ((mem_iff_get? h.nodup).1 he)

theorem Grouped.tail {e : String × List (String × Value)} (h : Grouped (e :: groups)) :
    Grouped groups where
  nodup := (List.nodup_cons.1 h.nodup).2
  isFamily := fun name entries hget =>
    h.mem (e := (name, entries))
      (List.mem_cons_of_mem e ((mem_iff_get? (List.nodup_cons.1 h.nodup).2).2 hget))

/-- A family is found where families stand one behind the other. -/
theorem family_flatMap (h : Grouped groups) (name : String) :
    family (groups.flatMap (·.2)) name = (get? name groups).getD [] := by
  induction groups with
  | nil => rfl
  | cons e groups ih =>
      obtain ⟨k, entries⟩ := e
      have hfirst := h.mem List.mem_cons_self
      rw [List.flatMap_cons, family_append, ih h.tail, get?]
      by_cases hk : k = name
      · subst hk
        have hnone : get? k groups = none := get?_eq_none_iff.2 (List.nodup_cons.1 h.nodup).1
        simp [hfirst.family_self, hnone]
      · simp [hfirst.family_of_ne hk, hk]

theorem plainEntries_flatMap (h : Grouped groups) : plainEntries (groups.flatMap (·.2)) = [] := by
  rw [plainEntries, List.filter_flatMap, List.flatMap_eq_nil_iff]
  exact fun e he => (h.mem he).plainEntries

theorem firstOccurrences_flatMap (h : Grouped groups) :
    firstOccurrences ((keys (groups.flatMap (·.2))).filterMap familyPrefix?) = keys groups := by
  induction groups with
  | nil => rfl
  | cons e groups ih =>
      have hfirst := h.mem List.mem_cons_self
      rw [List.flatMap_cons, keys_append, List.filterMap_append, firstOccurrences_append,
        hfirst.firstOccurrences, ih h.tail, keys_cons, List.singleton_append,
        List.filter_eq_self.2]
      intro name hname
      have hne : name ≠ e.1 := by
        rintro rfl
        exact (List.nodup_cons.1 h.nodup).1 hname
      have hfamily : name ∉ (keys e.2).filterMap familyPrefix? := by
        rw [← mem_firstOccurrences, hfirst.firstOccurrences]
        simpa using hne
      simpa using hfamily

/-- Families written one behind the other are the families of what is written. -/
theorem families_flatMap (h : Grouped groups) : families (groups.flatMap (·.2)) = groups := by
  rw [families_eq, firstOccurrences_flatMap h, keys, List.map_map]
  conv_rhs => rw [← List.map_id groups]
  refine List.map_congr_left fun e he => ?_
  have hget := (mem_iff_get? h.nodup).1 he
  simp [family_flatMap h, hget]

/-- A key of families that stand one behind the other names one of them. -/
theorem Grouped.exists_name (h : Grouped groups) (hk : k ∈ keys (groups.flatMap (·.2))) :
    ∃ name ∈ keys groups, familyPrefix? k = some name := by
  obtain ⟨entry, hentry, rfl⟩ := List.mem_map.1 hk
  obtain ⟨e, he, hmem⟩ := List.mem_flatMap.1 hentry
  exact ⟨e.1, List.mem_map_of_mem he, (h.mem he).named entry.1 (List.mem_map_of_mem hmem)⟩

theorem nodup_keys_flatMap (h : Grouped groups) : (keys (groups.flatMap (·.2))).Nodup := by
  induction groups with
  | nil => simp
  | cons e groups ih =>
      rw [List.flatMap_cons, keys_append, List.nodup_append]
      refine ⟨(h.mem List.mem_cons_self).nodup, ih h.tail, ?_⟩
      -- a key behind the first family has another family
      rintro k hk _ hrest rfl
      have hname := (h.mem List.mem_cons_self).named k hk
      obtain ⟨name, hmem, hname'⟩ := h.tail.exists_name hrest
      have hsame : e.1 = name := Option.some.inj (hname.symm.trans hname')
      exact (List.nodup_cons.1 h.nodup).1 (hsame ▸ hmem)

/-! ## Layers -/

/-- Plain properties under distinct keys, and families. -/
structure Layers.WellFormed (l : Layers) : Prop where
  nodup : (keys l.plain).Nodup
  isPlain : ∀ k ∈ keys l.plain, familyPrefix? k = none
  grouped : Grouped l.families

variable {sources : List Properties}

theorem layers_cons (source : Properties) (sources : List Properties) :
    layers (source :: sources) = (layers sources).add source := rfl

theorem wellFormed_add {l : Layers} (h : l.WellFormed) (source : Properties) :
    (l.add source).WellFormed where
  nodup := nodup_keys_putAll h.nodup
  isPlain := by
    intro k hk
    rw [Layers.add, keys_putAll h.nodup, mem_firstOccurrences, List.mem_append] at hk
    rcases hk with hk | hk
    · exact h.isPlain k hk
    · rw [keys_plainEntries, List.mem_filter] at hk
      simpa using hk.2
  grouped := h.grouped.putAll (grouped_families source)

theorem wellFormed_layers (sources : List Properties) : (layers sources).WellFormed := by
  induction sources with
  | nil => exact ⟨List.nodup_nil, by simp [layers], grouped_nil⟩
  | cons source sources ih => exact wellFormed_add ih source

/-- The layers of two lists of sources are those of the first written over the others. -/
theorem layers_append (a b : List Properties) :
    layers (a ++ b) = ⟨putAll (layers b).plain (layers a).plain,
      putAll (layers b).families (layers a).families⟩ := by
  induction a with
  | nil => rfl
  | cons source a ih =>
      have ha := wellFormed_layers a
      rw [List.cons_append, layers_cons, ih, layers_cons, Layers.add, Layers.add,
        putAll_putAll ha.nodup, putAll_putAll ha.grouped.nodup]

/-- Plain properties without the active profiles. -/
def Layers.visible (l : Layers) : List (String × Value) :=
  l.plain.filter fun e => e.1 ≠ activeProfilesKey

theorem Layers.WellFormed.isPlain_visible {l : Layers} (h : l.WellFormed)
    (hk : k ∈ keys l.visible) : familyPrefix? k = none := by
  obtain ⟨e, he, rfl⟩ := List.mem_map.1 hk
  exact h.isPlain e.1 (List.mem_map_of_mem (List.mem_filter.1 he).1)

/-- Merged properties are the plain ones without the active profiles, then family by family. -/
theorem entries_merge (sources : List Properties) :
    (merge sources).entries =
      (layers sources).visible ++ (layers sources).families.flatMap (·.2) := by
  have h := wellFormed_layers sources
  have hnodup : (keys ((layers sources).plain ++ (layers sources).families.flatMap (·.2))).Nodup := by
    rw [keys_append, List.nodup_append]
    refine ⟨h.nodup, nodup_keys_flatMap h.grouped, ?_⟩
    rintro k hk _ hfamily rfl
    obtain ⟨name, -, hname⟩ := h.grouped.exists_name hfamily
    rw [h.isPlain k hk] at hname
    contradiction
  rw [merge, OrderedMap.entries_erase, OrderedMap.entries_ofList hnodup, List.filter_append]
  congr 1
  -- the active profiles are no family
  refine List.filter_eq_self.2 fun entry hentry => ?_
  obtain ⟨name, -, hname⟩ := h.grouped.exists_name (List.mem_map_of_mem hentry)
  simp only [decide_eq_true_eq]
  intro hkey
  rw [hkey, familyPrefix?_activeProfilesKey] at hname
  contradiction

/-- The plain properties can be read off the merged ones. -/
theorem plainEntries_merge (sources : List Properties) :
    plainEntries (merge sources).entries = (layers sources).visible := by
  have h := wellFormed_layers sources
  rw [entries_merge, plainEntries_append, plainEntries_flatMap h.grouped, List.append_nil]
  refine List.filter_eq_self.2 fun e he => ?_
  simp [h.isPlain_visible (List.mem_map_of_mem he)]

/-- The families can be read off the merged properties. -/
theorem families_merge (sources : List Properties) :
    families (merge sources).entries = (layers sources).families := by
  have h := wellFormed_layers sources
  have hplain : ∀ e ∈ (layers sources).visible, familyPrefix? e.1 = none := fun e he =>
    h.isPlain_visible (List.mem_map_of_mem he)
  have hnames : (keys (layers sources).visible).filterMap familyPrefix? = [] :=
    List.filterMap_eq_nil_iff.2 (List.forall_mem_map.2 hplain)
  have hfamily : ∀ name, family (layers sources).visible name = [] := fun name =>
    List.filter_eq_nil_iff.2 fun e he => by simp [hplain e he]
  rw [← families_flatMap h.grouped, families_eq, families_eq, entries_merge, keys_append,
    List.filterMap_append, hnames, List.nil_append]
  simp only [family_append, hfamily, List.nil_append]

end Merge

end LayeredConfig
