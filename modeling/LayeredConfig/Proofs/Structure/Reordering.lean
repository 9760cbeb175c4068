import LayeredConfig.Proofs.Document.Scalars
import LayeredConfig.Proofs.Structure.Order
import LayeredConfig.Proofs.Structure.RoundTrip

/-!
# Documents from reordered properties

The flat properties of a regular map do not depend on their order: no two of its paths clash, and every
key is printed.  So the map is built from them in any order, up to the order of its members.

* `mem_keySegments_flatten` — the keys are the paths to scalars.
* `exists_build_of_perm` — the document of reordered properties.
-/

namespace LayeredConfig.Structure

open Key (Segment IsSegment)
open Key.text (continued)
open Value (RegularMap)

variable {d v : Value} {flat : Properties} {s a b : List Segment}

theorem segments?_pathKey {n : String} {path : List Segment}
    (h : ∀ g ∈ Segment.name n :: path, IsSegment g) :
    Key.segments? (pathKey (.name n :: path)) = some (.name n :: path) := by
  rw [Key.segments?_eq_some_iff, toList_pathKey_name]
  exact Key.spells_continued h

/-- A flat property of a regular map is a scalar whose path is read from the key. -/
theorem exists_path_of_mem (h : RegularMap d) {e : String × Value} (he : e ∈ d.flatten.entries) :
    ∃ path, Key.segments? e.1 = some path ∧ d.scalarAt? path = some e.2 ∧
      '.' :: e.1.toList = continued path := by
  obtain ⟨path, hkey, hv⟩ := h.mem_flatten.1 he
  have hvalid := h.isSegment hv
  obtain ⟨n, rest, rfl⟩ := h.exists_name hv
  rw [hkey]
  exact ⟨_, segments?_pathKey hvalid, hv, toList_pathKey_name n rest⟩

/-- The keys of a regular map are the paths to its scalars. -/
theorem mem_keySegments_flatten (h : RegularMap d) :
    s ∈ keySegments d.flatten.entries ↔ ∃ v, d.scalarAt? s = some v := by
  rw [mem_keySegments]
  constructor
  · rintro ⟨e, he, hs⟩
    obtain ⟨path, hpath, hv, -⟩ := exists_path_of_mem h he
    obtain rfl : path = s := by simpa [hs] using hpath.symm
    exact ⟨e.2, hv⟩
  · rintro ⟨v, hv⟩
    have hvalid := h.isSegment hv
    obtain ⟨n, rest, rfl⟩ := h.exists_name hv
    exact ⟨(pathKey (.name n :: rest), v), h.mem_flatten.2 ⟨_, rfl, hv⟩, segments?_pathKey hvalid⟩

/-- What is behind a prefix of two paths is of one kind, so the paths go on in one way. -/
theorem uniform_flatten (h : RegularMap d) : Uniform (keySegments d.flatten.entries) := by
  intro p g g' r r' hr hr'
  obtain ⟨v, hv⟩ := (mem_keySegments_flatten h).1 hr
  obtain ⟨v', hv'⟩ := (mem_keySegments_flatten h).1 hr'
  have hat := (Value.scalarAt?_eq_some.1 hv).1
  have hat' := (Value.scalarAt?_eq_some.1 hv').1
  rw [Value.atPath?_append] at hat hat'
  obtain ⟨c, hc, hat⟩ := Option.bind_eq_some_iff.1 hat
  rw [hc, Option.bind_some] at hat'
  cases c with
  | object members =>
      cases g <;> cases g' <;> first | rfl | contradiction
  | array items =>
      cases g <;> cases g' <;> first | rfl | contradiction
  | null | bool | number | string => cases g <;> contradiction

/-- Nothing is behind a scalar. -/
theorem eq_of_prefix (ha : a ∈ keySegments d.flatten.entries)
    (hb : b ∈ keySegments d.flatten.entries) (h : RegularMap d) (hab : a <+: b) : a = b := by
  obtain ⟨v, hv⟩ := (mem_keySegments_flatten h).1 ha
  obtain ⟨w, hw⟩ := (mem_keySegments_flatten h).1 hb
  obtain ⟨t, rfl⟩ := hab
  obtain ⟨hat, hscalar⟩ := Value.scalarAt?_eq_some.1 hv
  have hat' := (Value.scalarAt?_eq_some.1 hw).1
  rw [Value.atPath?_append, hat, Option.bind_some] at hat'
  rcases t with _ | ⟨g, t⟩
  · rw [List.append_nil]
  · cases v with
    | array | object => exact hscalar.elim
    | null | bool | number | string => cases g <;> contradiction

/-- The order of the flat properties of a regular map does not matter. -/
theorem orderIndependent_flatten (h : RegularMap d) : OrderIndependent d.flatten := by
  refine orderIndependent_of_printed (uniform_flatten h).unmixed (fun e he => ?_) (fun p i => ?_) ?_ ?_
  · obtain ⟨path, hpath, -, -⟩ := exists_path_of_mem h he
    exact ⟨path, hpath⟩
  · exact not_clash_of_uniform (uniform_flatten h) fun a ha b hb _ => eq_of_prefix ha hb h
  · intro e' _ e he s r _ hsr
    obtain ⟨path, hpath, -, htext⟩ := exists_path_of_mem h he
    obtain rfl : path = s ++ r := by simpa [hsr] using hpath.symm
    rw [htext, Key.continued_append]
    exact List.suffix_append _ _
  · intro e' he' e he hsame
    obtain ⟨path', hpath', hv', -⟩ := exists_path_of_mem h he'
    obtain ⟨path, hpath, hv, -⟩ := exists_path_of_mem h he
    obtain rfl : path' = path := by simpa [hpath', hpath] using hsame
    have hvalue : e'.2 = e.2 := by simpa [hv'] using hv
    rw [hvalue]

theorem exists_build_flatten (h : RegularMap d) :
    ∃ m, build d.flatten = .ok m ∧ (Node.map m).toValue = d := by
  cases h with
  | @object members hnodup hnames hmembers =>
      refine ⟨Node.entriesOfDocument members, ?_, ?_⟩
      · by_cases hne : members = []
        · subst hne
          rfl
        · exact build_flatten (.object hne hnodup hnames hmembers)
      · rw [← Node.ofDocument, Node.toValue_ofDocument]

/-- A regular map is built from its flat properties in any order, up to the order of its members. -/
theorem exists_build_of_perm (h : RegularMap d) (hperm : flat.entries.Perm d.flatten.entries) :
    ∃ m, build flat = .ok m ∧ (Node.map m).toValue.Alike d := by
  obtain ⟨m, hm, hvalue⟩ := exists_build_flatten h
  obtain ⟨hok, hlike⟩ := orderIndependent_flatten h flat hperm
  obtain ⟨m', hm'⟩ := hok.1 ⟨m, hm⟩
  exact ⟨m', hm', hvalue ▸ (hlike m m' hm hm').symm⟩

end LayeredConfig.Structure
