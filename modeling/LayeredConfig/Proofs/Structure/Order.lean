import LayeredConfig.Proofs.Document.Alike
import LayeredConfig.Proofs.Structure.Placement
import LayeredConfig.Proofs.Structure.Shading

/-!
# The order of properties

When the order of the properties matters for the document, and when it does not, for keys of which no
name goes on in two ways.  There are three ways in which it does:

* two keys clash at a list element, and a shorter key that is inserted before them turns both into
  compound names, so that the clash is not noticed;
* a key writes an index with leading zeros behind another key, which are kept when the other key is
  there first and lost when its subtree is displaced;
* two keys have the same segments, and the last one wins.

`orderIndependent_iff` says that there are no others.

* `not_alike_of_unprinted` — a spelling that is kept can be seen in the document.
* `covers_of_perm` — where none of the three ways is open, values stand at their places in any order.
-/

namespace LayeredConfig.Structure

open Key (Segment Spells lead)
open Key.text (continued)
open Node (Normal Held)

/-- Every reordering of the properties can be structured if they can, into a document that is alike. -/
def OrderIndependent (flat : Properties) : Prop :=
  ∀ flat' : Properties, flat'.entries.Perm flat.entries →
    ((∃ m, build flat = .ok m) ↔ ∃ m, build flat' = .ok m) ∧
      ∀ m m', build flat = .ok m → build flat' = .ok m' →
        (Node.map m).toValue.Alike (Node.map m').toValue

variable {m m' : NodeMap} {n : Node} {keys : List (List Segment)} {e e' : String × Value}
  {entries front rest : List (String × Value)} {p s r r' : List Segment} {i : Nat}

/-! ## When documents differ -/

/-- A key that is inserted behind the one key that shadows it keeps its spelling. -/
theorem Lands.ne_continued {v : Value} {text t : List Char}
    (h : Lands (.map m) (.map m') v (s ++ r) text t) (hm : Keyed [s, s ++ r] (.map m))
    (hm' : Kept [s, s ++ r] (.map m')) (hunmixed : Unmixed [s, s ++ r]) (hr : r ≠ [])
    (hnot : ¬ continued r <:+ text) : t ≠ continued (s ++ r) := by
  cases h with
  | exact hat => exact absurd hat (hm'.not_at?_behind hunmixed (by simp) hr _)
  | @compound p x r' u c hsegments hr' hsuffix hu hc ho =>
      obtain ⟨g, r', rfl⟩ := List.exists_cons_of_ne_nil hr'
      rw [hu.head?, Key.lead_cons] at ho
      have hkey : p ++ .name x :: g :: r' ∈ [s, s ++ r] := by simp [hsegments]
      obtain ⟨-, hbase⟩ := hm.blocked hunmixed hkey hc ho
      -- the key that blocks is the first one, since the other is not blocked by itself
      have hsame : p ++ [.name x] = s := by
        rcases List.mem_cons.1 hbase with hbase | hbase
        · exact hbase
        · have hlen := congrArg List.length (List.mem_singleton.1 hbase)
          rw [hsegments] at hlen
          simp at hlen
      subst hsame
      have hrest : r = g :: r' := by simpa using hsegments
      subst hrest
      intro htext
      rw [Key.continued_append (p ++ [Segment.name x])] at htext
      exact hnot (List.append_cancel_left htext ▸ hsuffix)

/-- If a key is not printed behind another one, and these two come first, its spelling is kept. -/
theorem exists_unprinted (hunmixed : Unmixed (keySegments (e' :: e :: rest)))
    (hs : Key.segments? e'.1 = some s) (hsr : Key.segments? e.1 = some (s ++ r))
    (hnot : ¬ continued r <:+ '.' :: e.1.toList) (h : insertAll [] (e' :: e :: rest) = .ok m) :
    ∃ t w, Spells (s ++ r) t ∧ t ≠ continued (s ++ r) ∧ (Node.map m).Held t w := by
  obtain ⟨m₁, hfirst, hrest⟩ := insertAll_cons_eq_ok_iff.1 h
  obtain ⟨m₂, hsecond, hrest⟩ := insertAll_cons_eq_ok_iff.1 hrest
  have hone : insertAll [] [e'] = .ok m₁ := insertAll_cons_eq_ok_iff.2 ⟨m₁, hfirst, rfl⟩
  have htwo : insertAll [] [e', e] = .ok m₂ :=
    insertAll_cons_eq_ok_iff.2 ⟨m₁, hfirst, insertAll_cons_eq_ok_iff.2 ⟨m₂, hsecond, rfl⟩⟩
  have hkeys : keySegments [e', e] = [s, s ++ r] := by simp [keySegments, hs, hsr]
  have hunmixed' : Unmixed [s, s ++ r] := hunmixed.subset fun s' hs' =>
    mem_keySegments_append_left (hkeys ▸ hs') rest
  have hkept : Kept [s, s ++ r] (.map m₂) := hkeys ▸ kept_insertAll htwo
  have hkeyed : Keyed [s, s ++ r] (.map m₁) :=
    keyed_insertAll hone (by simp [keySegments, hs]) hkept.valid
  have hr : r ≠ [] := by
    rintro rfl
    exact hnot List.nil_suffix
  obtain ⟨segments, hspells, hinserted⟩ := insertEntry_inserted hkeyed.normal hsecond
  obtain rfl : segments = s ++ r := by
    simpa [hsr] using (Key.segments?_eq_some_iff.2 hspells).symm
  obtain ⟨t, hlands, hupdate⟩ := hinserted.update
  -- whatever is inserted later, something stays under the text
  obtain ⟨w, hheld⟩ := exists_held_insertAll hinserted.normal hrest hupdate.held
  exact ⟨t, w, hlands.spells hspells.isSegment,
    hlands.ne_continued hkeyed hkept hunmixed' hr hnot, hheld⟩

/-- Where all keys are printed, there is no compound name that spells a key in another way. -/
theorem Settled.get?_compound_eq_none (h : Settled keys n) {p r : List Segment} {x : String}
    {u : List Char} (hkey : p ++ .name x :: r ∈ keys) (hr : r ≠ []) (hu : Spells r u)
    (hne : continued (p ++ [.name x]) ++ u ≠ continued (p ++ .name x :: r)) {mₚ : NodeMap}
    (hp : n.at? p = some (.map mₚ)) : mₚ.get? (String.ofList (x.toList ++ u)) = none := by
  by_contra hsome
  obtain ⟨d, hget⟩ := Option.ne_none_iff_exists'.1 hsome
  have hvalid := h.valid _ hkey
  have hname : Key.IsName x.toList := hvalid (.name x) (by simp)
  obtain ⟨-, hbehind⟩ := stem_compound hname hu
  have hcompound : Key.behindStem (String.ofList (x.toList ++ u)).toList ≠ [] := by
    rw [hbehind]
    rintro rfl
    cases hu
    exact hr rfl
  -- it would be a scalar, under a text that is printed for another key
  obtain ⟨⟨w, rfl⟩, -⟩ := ((h.normal.at? hp).named _ d hget).2 hcompound
  have hat : n.at? (p ++ [.name (String.ofList (x.toList ++ u))]) = some (.leaf w) :=
    Node.at?_append_eq_some.2 ⟨_, hp, Node.at?_name_eq_some.2 ⟨mₚ, _, rfl, hget, rfl⟩⟩
  obtain ⟨s', hs', htext⟩ := h.printed _ w ⟨_, hat, rfl⟩
  have hsplit : continued (p ++ [.name (String.ofList (x.toList ++ u))]) =
      continued (p ++ [.name x]) ++ u := by
    simp [Key.continued_append]
  have hspells : Spells (p ++ .name x :: r) (continued (p ++ [.name x]) ++ u) := by
    rw [← List.singleton_append, ← List.append_assoc] at hvalid ⊢
    exact (Key.spells_continued fun g hg => hvalid g (List.mem_append_left r hg)).append hu
  rw [hsplit] at htext
  rw [htext] at hspells hne
  exact hne (by rw [hspells.unique (Key.spells_continued (h.valid s' hs'))])

/-- A document in which a key keeps its spelling is not like one in which all keys are printed. -/
theorem not_alike_of_unprinted (h : Kept keys (.map m)) (h' : Settled keys (.map m'))
    (hunmixed : Unmixed keys) (hkey : s ∈ keys) {t : List Char} {w : Value} (hspells : Spells s t)
    (hne : t ≠ continued s) (hheld : (Node.map m).Held t w) :
    ¬ (Node.map m).toValue.Alike (Node.map m').toValue := by
  intro halike
  obtain ⟨q, hq, rfl⟩ := hheld
  rcases h.at?_of_spells hunmixed hkey hq hspells with
    rfl | ⟨p, x, r, u, w', rfl, hr, hu, rfl, hw', hbase⟩
  · exact hne rfl
  · -- both have a scalar at the shadow, but only the first one has the name beside it
    obtain ⟨w₂, hw₂⟩ := h'.toKept.at?_of_topmost hunmixed (h.topmost hunmixed hbase hw')
    obtain ⟨a, ha, hx⟩ := Node.at?_append_eq_some.1 hw₂
    obtain ⟨mₚ, c, rfl, -, -⟩ := Node.at?_name_eq_some.1 hx
    have hmissing := h'.get?_compound_eq_none hkey hr hu
      (by simpa [Key.continued_append] using hne) ha
    have hpath := halike (p ++ [.name (String.ofList (x.toList ++ u))])
    rw [Node.at?_toValue hq, Value.atPath?_append, Node.at?_toValue ha, Option.bind_some,
      Node.toValue.eq_1, Value.atPath?, Node.get?_entriesToValues, hmissing] at hpath
    contradiction

/-! ## The order of properties -/

theorem keySegments_perm {entries entries' : List (String × Value)} (h : entries'.Perm entries)
    (s : List Segment) : s ∈ keySegments entries' ↔ s ∈ keySegments entries :=
  (h.filterMap _).mem_iff

theorem clash_congr {keys' : List (List Segment)} (h : ∀ s, s ∈ keys' ↔ s ∈ keys) :
    Clash keys' p i ↔ Clash keys p i := by
  simp only [Clash, h]

theorem shaded_congr {keys' : List (List Segment)} (h : ∀ s, s ∈ keys' ↔ s ∈ keys) :
    Shaded keys' p ↔ Shaded keys p := by
  simp only [Shaded, h]

/-- Places depend on which keys there are, not on their order. -/
theorem place_congr {keys' : List (List Segment)} (h : ∀ s, s ∈ keys' ↔ s ∈ keys) :
    place keys' = place keys := by
  funext s
  simp only [place, shadow?, h]

/-- The value of the last key stands at its place. -/
theorem at?_place_last (hunmixed : Unmixed (keySegments (front ++ [e])))
    (hprinted : (front ++ [e]).Pairwise PrintedBehind) (hs : Key.segments? e.1 = some s)
    (h : insertAll [] (front ++ [e]) = .ok m) :
    (Node.map m).at? (place (keySegments (front ++ [e])) s) = some (.leaf e.2) := by
  have hsettled := settled_insertAll hunmixed hprinted h
  obtain ⟨m₁, hfront, hlast⟩ := insertAll_append_eq_ok_iff.1 h
  obtain ⟨m₂, hinsert, hnil⟩ := insertAll_cons_eq_ok_iff.1 hlast
  obtain rfl := Except.ok.inj hnil
  obtain ⟨segments, hsegments, hupdate⟩ := updates_of_printedBehind hunmixed
    (fun e' he' => (List.pairwise_append.1 hprinted).2.2 e' he' e (by simp)) hfront hinsert
  obtain rfl : segments = s := by simpa [hs] using hsegments.symm
  exact hsettled.at?_place hunmixed (mem_keySegments.2 ⟨e, by simp, hs⟩) hupdate.held

/-- If keys are printed behind their shadows and agree where they have the same segments, documents
from any two orders cover each other. -/
theorem covers_of_perm {entries' : List (String × Value)} (hperm : entries'.Perm entries)
    (hunmixed : Unmixed (keySegments entries))
    (hprinted : ∀ e' ∈ entries, ∀ e ∈ entries, PrintedBehind e' e)
    (hagree : ∀ e' ∈ entries, ∀ e ∈ entries, Key.segments? e'.1 = Key.segments? e.1 →
      e'.2.Alike e.2)
    (h : insertAll [] entries = .ok m) (h' : insertAll [] entries' = .ok m') :
    Node.Covers (.map m') (.map m) := by
  intro path v hv
  have hkeys := keySegments_perm hperm
  have hsettled := settled_insertAll hunmixed (List.pairwise_of_forall_mem_list hprinted) h
  obtain ⟨s, hkey, htext⟩ := hsettled.printed _ v ⟨path, hv, rfl⟩
  obtain rfl := hsettled.eq_place hunmixed hkey hv htext
  obtain ⟨e, he, hs, hplace⟩ :=
    exists_at?_place hunmixed (List.pairwise_of_forall_mem_list hprinted) h hkey
  obtain rfl : v = e.2 := by simpa [hv] using hplace
  obtain ⟨e', he', hs', hplace'⟩ := exists_at?_place (hunmixed.subset fun s hs => (hkeys s).1 hs)
    (List.pairwise_of_forall_mem_list fun a ha b hb =>
      hprinted a (hperm.mem_iff.1 ha) b (hperm.mem_iff.1 hb)) h' ((hkeys s).2 hkey)
  rw [place_congr hkeys] at hplace'
  exact ⟨e'.2, hplace', hagree e he e' (hperm.mem_iff.1 he') (hs.trans hs'.symm)⟩

/-- Some properties in another order. -/
def reorder (flat : Properties) (entries : List (String × Value)) (h : entries.Perm flat.entries) :
    Properties :=
  ⟨entries, (h.map Prod.fst).nodup_iff.2 flat.nodup⟩

/-- What orders of independent properties give. -/
theorem OrderIndependent.insertAll {flat : Properties} (h : OrderIndependent flat)
    {entries entries' : List (String × Value)} (hperm : entries.Perm flat.entries)
    (hperm' : entries'.Perm flat.entries) (hm : insertAll [] entries = .ok m) :
    ∃ m', Structure.insertAll [] entries' = .ok m' ∧
      (Node.map m).toValue.Alike (Node.map m').toValue := by
  obtain ⟨hok, hlike⟩ := h (reorder flat entries hperm) hperm
  obtain ⟨hok', hlike'⟩ := h (reorder flat entries' hperm') hperm'
  obtain ⟨m₀, hm₀⟩ := hok.2 ⟨m, hm⟩
  obtain ⟨m', hm'⟩ := hok'.1 ⟨m₀, hm₀⟩
  exact ⟨m', hm', (hlike m₀ m hm₀ hm).symm.trans (hlike' m₀ m' hm₀ hm')⟩

/-- Inserting long keys first prints every key. -/
theorem printedBehind_of_depth_le (h : depth e ≤ depth e') : PrintedBehind e' e := by
  intro s r hs hsr
  rw [depth_eq hs, depth_eq hsr, List.length_append] at h
  obtain rfl : r = [] := List.length_eq_zero_iff.1 (by omega)
  exact List.nil_suffix

theorem exists_sorted (entries : List (String × Value)) :
    ∃ sorted : List (String × Value), sorted.Perm entries ∧
      sorted.Pairwise fun e' e => depth e' ≤ depth e := by
  refine ⟨entries.mergeSort fun a b => depth a ≤ depth b, List.mergeSort_perm _ _, ?_⟩
  have hsorted := @List.pairwise_mergeSort _ (fun a b => decide (depth a ≤ depth b))
    (fun a b c hab hbc => by
      simp only [decide_eq_true_eq] at hab hbc ⊢
      omega)
    (fun a b => by
      simp only [Bool.or_eq_true, decide_eq_true_eq]
      omega) entries
  simpa using hsorted

/-- If nothing clashes, every order succeeds. -/
theorem exists_insertAll_of_perm {flat : Properties}
    (hread : ∀ e ∈ flat.entries, ∃ s, Key.segments? e.1 = some s)
    (hnone : ∀ p i, ¬ Clash (keySegments flat.entries) p i) (hperm : entries.Perm flat.entries) :
    ∃ m, insertAll [] entries = .ok m := by
  refine exists_insertAll_of_no_clash (fun e he => hread e (hperm.mem_iff.1 he)) fun p i => ?_
  rw [clash_congr (keySegments_perm hperm)]
  exact hnone p i

/-- The order does not matter where no order succeeds. -/
theorem orderIndependent_of_fails {flat : Properties}
    (h : ∀ flat' : Properties, flat'.entries.Perm flat.entries → ∀ m, build flat' ≠ .ok m) :
    OrderIndependent flat := by
  intro flat' hperm
  have hself := h flat (List.Perm.refl _)
  exact ⟨⟨fun ⟨m, hm⟩ => absurd hm (hself m), fun ⟨m, hm⟩ => absurd hm (h flat' hperm m)⟩,
    fun m _ hm => absurd hm (hself m)⟩

section

variable {flat : Properties} (hunmixed : Unmixed (keySegments flat.entries))
  (hread : ∀ e ∈ flat.entries, ∃ s, Key.segments? e.1 = some s)

include hunmixed hread

/-- If the order does not matter, a clash is not shaded. -/
theorem OrderIndependent.not_shaded (h : OrderIndependent flat)
    (hshaded : ∀ p i, Clash (keySegments flat.entries) p i → Shaded (keySegments flat.entries) p)
    (p : List Segment) (i : Nat) : ¬ Clash (keySegments flat.entries) p i := by
  intro hclash
  obtain ⟨sorted, hperm, hsorted⟩ := exists_sorted flat.entries
  have hkeys := keySegments_perm hperm
  obtain ⟨m, hm⟩ := exists_insertAll_of_sorted (fun e he => hread e (hperm.mem_iff.1 he))
    (hunmixed.subset fun s hs => (hkeys s).1 hs)
    (fun p i hclash => (shaded_congr hkeys).2 (hshaded p i ((clash_congr hkeys).1 hclash)))
    hsorted
  obtain ⟨entries', hperm', hfail⟩ := exists_failing_order hclash
  obtain ⟨m', hm', -⟩ := h.insertAll hperm hperm' hm
  exact hfail m' hm'

variable (hnone : ∀ p i, ¬ Clash (keySegments flat.entries) p i)

include hnone

/-- If the order does not matter, keys are printed behind their shadows: the shadow may come right
before the key, or long keys first. -/
theorem OrderIndependent.printedBehind (h : OrderIndependent flat) (he' : e' ∈ flat.entries)
    (he : e ∈ flat.entries) : PrintedBehind e' e := by
  intro s r hs hsr
  by_contra hnot
  have hne : e ≠ e' := by
    rintro rfl
    rw [hs, Option.some.injEq] at hsr
    rw [List.self_eq_append_right.1 hsr] at hnot
    exact hnot List.nil_suffix
  obtain ⟨rest, hperm⟩ := perm_cons_cons he' he hne
  -- compare an order that starts with the two keys and one that puts long keys first
  obtain ⟨sorted, hperm', hsorted⟩ := exists_sorted flat.entries
  have hreverse : sorted.reverse.Perm flat.entries := (List.reverse_perm sorted).trans hperm'
  obtain ⟨m, hm⟩ := exists_insertAll_of_perm hread hnone hperm
  obtain ⟨m', hm', halike⟩ := h.insertAll hperm hreverse hm
  have hkeys : ∀ s, s ∈ keySegments (e' :: e :: rest) ↔ s ∈ keySegments sorted.reverse :=
    fun s => (keySegments_perm hperm s).trans (keySegments_perm hreverse s).symm
  have hunmixed' : Unmixed (keySegments (e' :: e :: rest)) :=
    hunmixed.subset fun s hs => (keySegments_perm hperm s).1 hs
  have hsettled : Settled (keySegments sorted.reverse) (.map m') := by
    refine settled_insertAll (hunmixed'.subset fun s hs => (hkeys s).2 hs) ?_ hm'
    exact List.pairwise_reverse.2 (hsorted.imp printedBehind_of_depth_le)
  obtain ⟨t, w, hspells, hprinted, hheld⟩ := exists_unprinted hunmixed' hs hsr hnot hm
  have hkept : Kept (keySegments sorted.reverse) (.map m) := by
    obtain ⟨⟨hnormal, hvalid, hspelled⟩, hkept⟩ := kept_insertAll hm
    refine ⟨⟨hnormal, fun s hs => hvalid s ((hkeys s).2 hs), fun t w ht => ?_⟩,
      fun s hs => hkept s ((hkeys s).2 hs)⟩
    obtain ⟨s, hs, hspells⟩ := hspelled t w ht
    exact ⟨s, (hkeys s).1 hs, hspells⟩
  refine not_alike_of_unprinted hkept hsettled (hunmixed'.subset fun s hs => (hkeys s).2 hs)
    ((hkeys _).1 (mem_keySegments.2 ⟨e, by simp, hsr⟩)) hspells hprinted hheld halike

/-- If the order does not matter, values of the same segments are alike: either may come last. -/
theorem OrderIndependent.alike (h : OrderIndependent flat)
    (hprinted : ∀ e' ∈ flat.entries, ∀ e ∈ flat.entries, PrintedBehind e' e)
    (he' : e' ∈ flat.entries) (he : e ∈ flat.entries)
    (hsame : Key.segments? e'.1 = Key.segments? e.1) : e'.2.Alike e.2 := by
  by_cases heq : e = e'
  · rw [heq]
  · obtain ⟨s, hs⟩ := hread e he
    obtain ⟨rest, hperm⟩ := perm_cons_cons he' he heq
    -- the last one of the two wins, so let each of them be the last
    have hlast : (rest ++ [e'] ++ [e]).Perm flat.entries := by
      refine List.Perm.trans ?_ hperm
      simpa using @List.perm_append_comm _ rest [e', e]
    have hlast' : (rest ++ [e] ++ [e']).Perm flat.entries := by
      refine List.Perm.trans ?_ hlast
      simpa using (List.Perm.swap e' e []).append_left rest
    have hpairwise : ∀ {entries : List (String × Value)}, entries.Perm flat.entries →
        entries.Pairwise PrintedBehind := fun hperm =>
      List.pairwise_of_forall_mem_list fun a ha b hb =>
        hprinted a (hperm.mem_iff.1 ha) b (hperm.mem_iff.1 hb)
    obtain ⟨m, hm⟩ := exists_insertAll_of_perm hread hnone hlast
    obtain ⟨m', hm', halike⟩ := h.insertAll hlast hlast' hm
    have hat := at?_place_last (hunmixed.subset fun s hs => (keySegments_perm hlast s).1 hs)
      (hpairwise hlast) hs hm
    have hat' := at?_place_last (hunmixed.subset fun s hs => (keySegments_perm hlast' s).1 hs)
      (hpairwise hlast') (hsame.trans hs) hm'
    rw [place_congr (keySegments_perm hlast)] at hat
    rw [place_congr (keySegments_perm hlast')] at hat'
    simpa [Node.toValue] using (Node.alike_at? halike hat hat').symm

/-- The order does not matter where nothing clashes, all keys are printed behind their shadows, and
keys with the same segments have alike values. -/
theorem orderIndependent_of_printed
    (hprinted : ∀ e' ∈ flat.entries, ∀ e ∈ flat.entries, PrintedBehind e' e)
    (hagree : ∀ e' ∈ flat.entries, ∀ e ∈ flat.entries, Key.segments? e'.1 = Key.segments? e.1 →
      e'.2.Alike e.2) : OrderIndependent flat := by
  intro flat' hperm
  refine ⟨⟨fun _ => exists_insertAll_of_perm hread hnone hperm,
    fun _ => exists_insertAll_of_perm hread hnone (List.Perm.refl _)⟩, fun m m' hm hm' => ?_⟩
  have hkeys := keySegments_perm hperm
  have hcovers := covers_of_perm hperm hunmixed hprinted hagree hm hm'
  have hcovers' := covers_of_perm hperm.symm (hunmixed.subset fun s hs => (hkeys s).1 hs)
    (fun a ha b hb => hprinted a (hperm.mem_iff.1 ha) b (hperm.mem_iff.1 hb))
    (fun a ha b hb => hagree a (hperm.mem_iff.1 ha) b (hperm.mem_iff.1 hb)) hm' hm
  exact Node.alike_of_covers (normal_build hm) (normal_build hm') rfl hcovers hcovers'

end

/-- Let no name go on in two ways.  The order of the properties does not matter exactly if some key
cannot be read, or if two keys clash that no key in a name shades, so that no order succeeds, or if no
two keys clash, every key is printed behind its shadows, and keys with the same segments have alike
values. -/
theorem orderIndependent_iff {flat : Properties} (hunmixed : Unmixed (keySegments flat.entries)) :
    OrderIndependent flat ↔
      (∃ k ∈ flat.keys, Key.segments? k = none) ∨
        (∃ p i, Clash (keySegments flat.entries) p i ∧ ¬ Shaded (keySegments flat.entries) p) ∨
          (∀ p i, ¬ Clash (keySegments flat.entries) p i) ∧
            ∀ e' ∈ flat.entries, ∀ e ∈ flat.entries, PrintedBehind e' e ∧
              (Key.segments? e'.1 = Key.segments? e.1 → e'.2.Alike e.2) := by
  constructor
  · intro h
    by_cases hunread : ∃ k ∈ flat.keys, Key.segments? k = none
    · exact .inl hunread
    by_cases hopen : ∃ p i, Clash (keySegments flat.entries) p i ∧
        ¬ Shaded (keySegments flat.entries) p
    · exact .inr (.inl hopen)
    have hread : ∀ e ∈ flat.entries, ∃ s, Key.segments? e.1 = some s := fun e he =>
      Option.ne_none_iff_exists'.1 fun h0 => hunread ⟨e.1, List.mem_map_of_mem he, h0⟩
    have hnone := h.not_shaded hunmixed hread fun p i hclash =>
      not_not.1 fun hshaded => hopen ⟨p, i, hclash, hshaded⟩
    have hprinted : ∀ e' ∈ flat.entries, ∀ e ∈ flat.entries, PrintedBehind e' e :=
      fun e' he' e he => h.printedBehind hunmixed hread hnone he' he
    exact .inr (.inr ⟨hnone, fun e' he' e he => ⟨hprinted e' he' e he,
      h.alike hunmixed hread hnone hprinted he' he⟩⟩)
  · intro h
    by_cases hunread : ∃ k ∈ flat.keys, Key.segments? k = none
    · obtain ⟨k, hk, hunread⟩ := hunread
      obtain ⟨e, he, rfl⟩ := List.mem_map.1 hk
      apply orderIndependent_of_fails
      intro flat' hperm m hm
      obtain ⟨s, -, -, hs, -⟩ := exists_held_of_mem Node.normal_empty_map hm (hperm.mem_iff.2 he)
      simp [hunread] at hs
    have hread : ∀ e ∈ flat.entries, ∃ s, Key.segments? e.1 = some s := fun e he =>
      Option.ne_none_iff_exists'.1 fun h0 => hunread ⟨e.1, List.mem_map_of_mem he, h0⟩
    rcases h with h | ⟨p, i, hclash, hopen⟩ | ⟨hnone, hpairs⟩
    · exact absurd h hunread
    · apply orderIndependent_of_fails
      intro flat' hperm m
      have hkeys := keySegments_perm hperm
      exact not_insertAll_of_open_clash (hunmixed.subset fun s hs => (hkeys s).1 hs)
        ((clash_congr hkeys).2 hclash) (mt (shaded_congr hkeys).1 hopen)
    · exact orderIndependent_of_printed hunmixed hread hnone
        (fun e' he' e he => (hpairs e' he' e he).1) (fun e' he' e he => (hpairs e' he' e he).2)

/-- A key beside its shadow. -/
def shadowedPair : Properties := .ofList [("a.b", .string "x"), ("a.b.c", .string "y")]

theorem orderIndependent_shadowedPair : OrderIndependent shadowedPair := by
  have hkeys : keySegments shadowedPair.entries =
      [[.name "a", .name "b"], [.name "a", .name "b", .name "c"]] := by cbv
  have huniform : Uniform (keySegments shadowedPair.entries) := by
    rw [hkeys]
    decide
  refine (orderIndependent_iff huniform.unmixed).2 (.inr (.inr ⟨?_, ?_⟩))
  · rintro p i ⟨r, r', hr, -⟩
    rw [hkeys] at hr
    have hindex : Segment.index i ∈ p ++ .index i :: r := by simp
    rcases List.mem_pair.1 hr with h | h
    · simp [h] at hindex
    · simp [h] at hindex
  · have hshort : Key.segments? "a.b" = some [.name "a", .name "b"] := by cbv
    have hlong : Key.segments? "a.b.c" = some [.name "a", .name "b", .name "c"] := by cbv
    intro e' he' e he
    refine ⟨printedBehind_of_plain ?_ e', fun hsame => ?_⟩
    · revert e
      decide
    · rcases List.mem_pair.1 he' with rfl | rfl <;> rcases List.mem_pair.1 he with rfl | rfl
      · rfl
      · simp [hshort, hlong] at hsame
      · simp [hshort, hlong] at hsame
      · rfl

/-- An index with leading zeros behind a shadow that comes later. -/
def zeroPadded : Properties := .ofList [("a[00]", .string "x"), ("a", .string "y")]

/-- A clash at an element that a later key shades. -/
def shadedClash : Properties :=
  .ofList [("a[0]", .string "x"), ("a[0].b", .string "y"), ("a", .string "z")]

/-- The order matters for these keys, although no name goes on in two ways: one document loses the
spelling of an index, and for the second properties only some orders succeed. -/
theorem not_orderIndependent :
    (Unmixed (keySegments zeroPadded.entries) ∧ ¬ OrderIndependent zeroPadded) ∧
      Unmixed (keySegments shadedClash.entries) ∧ ¬ OrderIndependent shadedClash := by
  refine ⟨⟨?_, fun h => ?_⟩, ?_, fun h => ?_⟩
  · have hkeys : keySegments zeroPadded.entries = [[.name "a", .index 0], [.name "a"]] := by cbv
    have huniform : Uniform (keySegments zeroPadded.entries) := by
      rw [hkeys]
      decide
    exact huniform.unmixed
  · have hlast : build zeroPadded =
        .ok [("a", .leaf (.string "y")), ("a[0]", .leaf (.string "x"))] := by cbv
    have hfirst : build (.ofList [("a", .string "y"), ("a[00]", .string "x")]) =
        .ok [("a", .leaf (.string "y")), ("a[00]", .leaf (.string "x"))] := by cbv
    have halike := (h _ (List.Perm.swap _ _ _)).2 _ _ hlast hfirst [.name "a[0]"]
    exact absurd halike (by decide)
  · have hkeys : keySegments shadedClash.entries =
        [[.name "a", .index 0], [.name "a", .index 0, .name "b"], [.name "a"]] := by cbv
    have huniform : Uniform (keySegments shadedClash.entries) := by
      rw [hkeys]
      decide
    exact huniform.unmixed
  · have hlast : build shadedClash = .error ⟨"a[0].b", .elementConflict 0⟩ := by cbv
    have hfirst : build (.ofList [("a", .string "z"), ("a[0]", .string "x"),
        ("a[0].b", .string "y")]) = .ok [("a", .leaf (.string "z")), ("a[0]", .leaf (.string "x")),
          ("a[0].b", .leaf (.string "y"))] := by cbv
    have hperm : ([("a", .string "z"), ("a[0]", .string "x"), ("a[0].b", .string "y")] :
        List (String × Value)).Perm shadedClash.entries :=
      (@List.perm_middle _ ("a", Value.string "z")
        [("a[0]", Value.string "x"), ("a[0].b", Value.string "y")] []).symm
    obtain ⟨m, hm⟩ := (h _ hperm).1.2 ⟨_, hfirst⟩
    rw [hlast] at hm
    contradiction

end LayeredConfig.Structure
