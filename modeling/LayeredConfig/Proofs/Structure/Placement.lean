import LayeredConfig.Proofs.Structure.Settled
import Mathlib

/-!
# Where values are placed

Structuring works through the properties one by one and takes subtrees apart on the way; where a value
ends up can be told from the keys alone.  A key *shadows* those that go on behind it: the value of a
key that is not shadowed stands at the path of its segments, and the value of any other key under one
compound name beside its shortest shadow.

* `place` — the place of a value, from the keys alone.
* `Settled.eq_place` — in a settled document the scalar under the text of a key is at its place.
* `Settled.accounted` — a settled document has nothing but the values at their places, the containers on
  the way, and the padding of lists.
* `build_placed` — where keys go on in one way, every value stands at its place, and the keys
  account for everything.
-/

namespace LayeredConfig.Structure

open Key (Plain Segment Spells)
open Key.text (continued)
open Node (Normal Held)

/-- The length of the shortest proper prefix of the segments that is a key itself. -/
def shadow? (keys : List (List Segment)) (segments : List Segment) : Option Nat :=
  (List.range segments.length).find? fun j => segments.take j ∈ keys

/-- Where the value of a key is placed: at the path of its segments, or, beside its shortest shadow,
under one name with the text of the key from the last segment of the shadow on. -/
def place (keys : List (List Segment)) (segments : List Segment) : List Segment :=
  match shadow? keys segments with
  | none => segments
  | some j =>
    segments.take (j - 1) ++ [.name (String.ofList (Key.text (segments.drop (j - 1))))]

/-- No two keys go on in different ways behind a common prefix. -/
def Uniform (keys : List (List Segment)) : Prop :=
  ∀ p g g' r r', p ++ g :: r ∈ keys → p ++ g' :: r' ∈ keys → g.opener = g'.opener

theorem Uniform.unmixed {keys : List (List Segment)} (h : Uniform keys) : Unmixed keys :=
  fun p x g g' r r' hr hr' => h (p ++ [.name x]) g g' r r' (by simpa using hr) (by simpa using hr')

/-- What is asked of all pairs of keys with a common prefix, as a search through the keys. -/
theorem forall_common_prefix_iff {keys : List (List Segment)}
    {P : List Segment → Segment → Segment → Prop} :
    (∀ p g g' r r', p ++ g :: r ∈ keys → p ++ g' :: r' ∈ keys → P p g g') ↔
      ∀ a ∈ keys, ∀ b ∈ keys, ∀ i < a.length, ∀ g ∈ a[i]?, ∀ g' ∈ b[i]?,
        a.take i = b.take i → P (a.take i) g g' := by
  constructor
  · intro h a ha b hb i _ g hg g' hg' htake
    have hsplit : ∀ {s : List Segment} {g : Segment}, s[i]? = some g →
        s = s.take i ++ g :: s.drop (i + 1) := by
      intro s g hg
      obtain ⟨hi, rfl⟩ := List.getElem?_eq_some_iff.1 hg
      rw [← List.drop_eq_getElem_cons hi, List.take_append_drop]
    exact h _ g g' _ _ (hsplit hg ▸ ha) (by rw [htake, ← hsplit hg']; exact hb)
  · intro h p g g' r r' hr hr'
    simpa using h _ hr _ hr' p.length (by simp) g (by simp) g' (by simp) (by simp)

instance (keys : List (List Segment)) : Decidable (Uniform keys) :=
  decidable_of_iff _
    (@forall_common_prefix_iff keys fun _ g g' => g.opener = g'.opener).symm

section

variable {keys : List (List Segment)} {n c : Node} {segments p r : List Segment} {x : String}
  {v : Value}

theorem place_of_topmost (h : Topmost keys segments) : place keys segments = segments := by
  have hnone : shadow? keys segments = none := by
    simp only [shadow?, List.find?_eq_none, List.mem_range, decide_eq_true_eq]
    intro j hj
    apply h.2 _ (segments.drop j) _ (List.take_append_drop j segments).symm
    rw [Ne, List.drop_eq_nil_iff]
    omega
  rw [place, hnone]

theorem place_of_shadowed (h : Topmost keys (p ++ [.name x])) (hr : r ≠ []) :
    place keys (p ++ .name x :: r) = p ++ [.name (String.ofList (x.toList ++ continued r))] := by
  have hlen := List.length_pos_iff.2 hr
  have happend : p ++ .name x :: r = p ++ [.name x] ++ r := by simp
  -- the prefixes up to the shadow are those of the shadow, which is topmost
  have htake : ∀ j, j ≤ p.length + 1 →
      (p ++ .name x :: r).take j = (p ++ [Segment.name x]).take j := by
    intro j hj
    rw [happend, List.take_append_of_le_length (by simpa using hj)]
  have hsome : shadow? keys (p ++ .name x :: r) = some (p.length + 1) := by
    rw [shadow?, List.find?_range_eq_some]
    refine ⟨?_, ?_, ?_⟩
    · rw [htake _ le_rfl, List.take_of_length_le (by simp)]
      simpa using h.1
    · simp only [List.mem_range, List.length_append, List.length_cons]
      omega
    · intro j hj
      have hdrop : (p ++ [Segment.name x]).drop j ≠ [] := by
        rw [Ne, List.drop_eq_nil_iff, List.length_append, List.length_singleton]
        omega
      rw [htake j (by omega)]
      simpa using h.2 _ _ hdrop (List.take_append_drop j _).symm
  rw [place, hsome]
  simp [Key.text]

/-- In a settled document a scalar under the text of a key stands at the place of the key. -/
theorem Settled.eq_place (h : Settled keys n) (hunmixed : Unmixed keys) (hkey : segments ∈ keys)
    {q : List Segment} (hq : n.at? q = some (.leaf v)) (htext : continued q = continued segments) :
    q = place keys segments := by
  have hspells : Spells segments (continued q) := htext ▸ Key.spells_continued (h.valid _ hkey)
  rcases h.at?_of_spells hunmixed hkey hq hspells with
    rfl | ⟨p, x, r, u, w, rfl, hr, -, rfl, hw, hbase⟩
  · rw [place_of_topmost (h.toKept.topmost hunmixed hkey hq)]
  · have hu : u = continued r := by
      simpa [Key.continued_append] using htext
    rw [place_of_shadowed (h.toKept.topmost hunmixed hbase hw) hr, hu]

theorem Settled.at?_place (h : Settled keys n) (hunmixed : Unmixed keys) (hkey : segments ∈ keys)
    (hv : n.Held (continued segments) v) : n.at? (place keys segments) = some (.leaf v) := by
  obtain ⟨q, hq, htext⟩ := hv
  rwa [← h.eq_place hunmixed hkey hq htext]

/-- Every filled node is on the path to the place of a key. -/
theorem Settled.exists_place (h : Settled keys n) (hunmixed : Unmixed keys) {path : List Segment}
    (hc : n.at? path = some c) (hfilled : c.Filled) :
    ∃ segments ∈ keys, ∃ t, place keys segments = path ++ t ∧ (t = [] → c.opener = none) := by
  obtain ⟨-, w, t, ht, -⟩ := (h.normal.at? hc).exists_held hfilled
  have hleaf : n.at? (path ++ t) = some (.leaf w) := Node.at?_append_eq_some.2 ⟨c, hc, ht⟩
  obtain ⟨segments, hkey, htext⟩ := h.printed _ w ⟨_, hleaf, rfl⟩
  refine ⟨segments, hkey, t, (h.eq_place hunmixed hkey hleaf htext).symm, ?_⟩
  rintro rfl
  obtain rfl : c = .leaf w := by simpa using ht
  rfl

/-- What the keys account for: the values at their places, the containers on the paths to these, and
null slots in front of an element that is on such a path. -/
inductive Accounted (keys : List (List Segment)) : List Segment → Node → Prop
  | value {s : List Segment} (hkey : s ∈ keys) (v : Value) :
      Accounted keys (place keys s) (.leaf v)
  | container {s path t : List Segment} {a : Node} (hkey : s ∈ keys)
      (hplace : place keys s = path ++ t) (ht : t ≠ []) (ha : a.opener ≠ none) :
      Accounted keys path a
  | padding {s path t : List Segment} {i j : Nat} (hkey : s ∈ keys)
      (hplace : place keys s = path ++ .index j :: t) (hij : i < j) :
      Accounted keys (path ++ [.index i]) .null

/-- Every node below the root is accounted for: a null slot has a filled element behind it, and a filled
node is on the path to a place. -/
theorem Settled.accounted (h : Settled keys n) (hunmixed : Unmixed keys) {path : List Segment}
    (hne : path ≠ []) (hc : n.at? path = some c) : Accounted keys path c := by
  by_cases hnull : c = .null
  · subst hnull
    obtain ⟨p, i, items, rfl, hp, hi⟩ := h.normal.exists_index_of_null hc hne
    obtain ⟨j, d, hle, hd, hfilled⟩ := (h.normal.at? hp).exists_filled_element hi
    have hij : i ≠ j := by
      rintro rfl
      obtain rfl : .null = d := by simpa [hi] using hd
      exact hfilled
    have hat : n.at? (p ++ [.index j]) = some d :=
      Node.at?_append_eq_some.2 ⟨_, hp, Node.at?_index_eq_some.2 ⟨items, d, rfl, hd, rfl⟩⟩
    obtain ⟨segments, hkey, t, hplace, -⟩ := h.exists_place hunmixed hat hfilled
    rw [List.append_assoc] at hplace
    exact .padding hkey hplace (by omega)
  · obtain ⟨segments, hkey, t, hplace, ht⟩ :=
      h.exists_place hunmixed hc (h.normal.filled_at? hc hne hnull)
    by_cases hopener : c.opener = none
    · cases c with
      | leaf v =>
          obtain ⟨segments, hkey, htext⟩ := h.printed _ v ⟨path, hc, rfl⟩
          rw [h.eq_place hunmixed hkey hc htext]
          exact .value hkey v
      | null => exact absurd rfl hnull
      | map entries => simp at hopener
      | list items => simp at hopener
    · exact .container hkey hplace (mt ht hopener) hopener

end

section

variable {m : NodeMap} {entries : List (String × Value)}

/-- The value at the place of a key is one of the values given for its segments. -/
theorem exists_at?_place (hunmixed : Unmixed (keySegments entries))
    (hprinted : entries.Pairwise PrintedBehind) (h : insertAll [] entries = .ok m)
    {segments : List Segment} (hkey : segments ∈ keySegments entries) :
    ∃ e ∈ entries, Key.segments? e.1 = some segments ∧
      (Node.map m).at? (place (keySegments entries) segments) = some (.leaf e.2) := by
  have hsettled := settled_insertAll hunmixed hprinted h
  obtain ⟨w, hw⟩ := hsettled.held segments hkey
  rcases held_insertAll_imp Node.normal_empty_map h hw with
    ⟨e, he, segments', hsegments', hspells, rfl⟩ | hempty
  · obtain rfl := hspells.unique (Key.spells_continued (hsettled.valid segments hkey))
    exact ⟨e, he, hsegments', hsettled.at?_place hunmixed hkey hw⟩
  · simp [Node.held_map] at hempty

/-- Keys that go on in one way, and nowhere behind a key that ends in an index, do not clash. -/
theorem not_clash_of_uniform {keys : List (List Segment)} (huniform : Uniform keys)
    (hends : ∀ a ∈ keys, ∀ b ∈ keys, a.getLast?.any Segment.isIndex = true → a <+: b → a = b)
    {p : List Segment} {i : Nat} : ¬ Clash keys p i := by
  rintro ⟨r, r', hr, hr', hlead⟩
  have hlast : ∀ {g r}, p ++ [.index i] ∈ keys → p ++ .index i :: g :: r ∉ keys := by
    intro g r ha hb
    have heq := hends _ ha _ hb (by simp [Segment.isIndex]) ⟨g :: r, by simp⟩
    simp at heq
  -- one of the two ends at the index, or both go on there
  rcases r with _ | ⟨g, r⟩ <;> rcases r' with _ | ⟨g', r'⟩
  · exact hlead rfl
  · exact hlast hr hr'
  · exact hlast hr' hr
  · have hkind := huniform (p ++ [.index i]) g g' r r' (by simpa using hr) (by simpa using hr')
    exact hlead (congrArg some hkind)

/-- Let no two plain keys go on in different ways behind a common prefix, and none behind one that ends
in an index.  Then they can be structured into a normal document, the value of each stands at its place,
and there is nothing else but what the keys account for. -/
theorem build_placed {flat : Properties} (hread : ∀ k ∈ flat.keys, (Key.segments? k).isSome)
    (hplain : ∀ k ∈ flat.keys, Plain k.toList) (huniform : Uniform (keySegments flat.entries))
    (hends : ∀ a ∈ keySegments flat.entries, ∀ b ∈ keySegments flat.entries,
      a.getLast?.any Segment.isIndex = true → a <+: b → a = b) :
    ∃ m, build flat = .ok m ∧ (Node.map m).Normal ∧
      (∀ e ∈ flat.entries, ∀ segments, Key.segments? e.1 = some segments →
        (Node.map m).at? (place (keySegments flat.entries) segments) = some (.leaf e.2)) ∧
      ∀ path a, path ≠ [] → (Node.map m).at? path = some a →
        Accounted (keySegments flat.entries) path a := by
  have hread' : ∀ e ∈ flat.entries, ∃ segments, Key.segments? e.1 = some segments :=
    fun e he => Option.isSome_iff_exists.1 (hread e.1 (List.mem_map_of_mem he))
  have hplain' : ∀ e ∈ flat.entries, Plain e.1.toList :=
    fun e he => hplain e.1 (List.mem_map_of_mem he)
  have hprinted : flat.entries.Pairwise PrintedBehind :=
    List.pairwise_of_forall_mem_list fun e' _ e he => printedBehind_of_plain (hplain' e he) e'
  obtain ⟨m, hbuild⟩ := exists_insertAll_of_no_clash hread' fun p i =>
    not_clash_of_uniform huniform hends
  refine ⟨m, hbuild, normal_build hbuild, ?_, fun path a hne ha =>
    (settled_insertAll huniform.unmixed hprinted hbuild).accounted huniform.unmixed hne ha⟩
  intro e he segments hsegments
  obtain ⟨e', he', hsegments', hplace⟩ := exists_at?_place huniform.unmixed hprinted hbuild
    (mem_keySegments.2 ⟨e, he, hsegments⟩)
  have hkey : e'.1 = e.1 :=
    Key.eq_of_segments? (hplain' e' he') (hplain' e he) hsegments' hsegments
  -- keys are distinct, so the value at the place is the one of the property
  obtain rfl : e' = e := List.inj_on_of_nodup_map flat.nodup he' he hkey
  exact hplace

/-- A subtree that is displaced beside the shortest of its shadows. -/
def shadowedProperties : Properties :=
  .ofList [("a.b.c[1].d", .bool true), ("a.b.c", .string "x"), ("a.b", .null), ("e[1]", .bool false)]

theorem build_placed_shadowedProperties :
    ∃ m, build shadowedProperties = .ok m ∧
      (Node.map m).at? [.name "a", .name "b.c[1].d"] = some (.leaf (.bool true)) := by
  have hkeys : keySegments shadowedProperties.entries =
      [[.name "a", .name "b", .name "c", .index 1, .name "d"], [.name "a", .name "b", .name "c"],
        [.name "a", .name "b"], [.name "e", .index 1]] := by cbv
  have hread : ∀ e ∈ shadowedProperties.entries, (Key.segments? e.1).isSome := by
    have hentries : shadowedProperties.entries.all fun e => (Key.segments? e.1).isSome := by cbv
    simpa using hentries
  have hplace : place (keySegments shadowedProperties.entries)
      [.name "a", .name "b", .name "c", .index 1, .name "d"] = [.name "a", .name "b.c[1].d"] := by
    rw [hkeys]
    decide
  obtain ⟨m, hm, -, hvalues, -⟩ := @build_placed shadowedProperties
    (List.forall_mem_map.2 hread) (by decide) (by rw [hkeys]; decide) (by rw [hkeys]; decide)
  exact ⟨m, hm, hplace ▸ hvalues ("a.b.c[1].d", .bool true) (by decide) _ (by cbv)⟩

end

end LayeredConfig.Structure
