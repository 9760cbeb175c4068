import LayeredConfig.Proofs.Structure.Run

/-!
# Documents over a set of keys

What is known of a document from the keys that have been inserted, whatever their order was.  Every
scalar stands under a text of some key, and what a key cannot go on at is a scalar that stands at the
path of another key.

* `Keyed.blocked` — an entry at which a key cannot go on is a scalar at the path of a key.
* `Keyed.at?_of_spells` — the value of a key stands at the path of its segments, or under a compound
  name beside such a scalar.
* `settled_insertAll` — keys that are printed behind the keys before them are held under their printed
  texts, and nothing else is held.
-/

namespace LayeredConfig.Structure

open Key (Plain Segment Spells)
open Key.text (continued)
open Node (Normal Held)

/-- A key that no other key shadows. -/
def Topmost (keys : List (List Segment)) (segments : List Segment) : Prop :=
  segments ∈ keys ∧ ∀ q t, t ≠ [] → segments = q ++ t → q ∉ keys

/-- No name goes on with a name in one key and with an index in another. -/
def Unmixed (keys : List (List Segment)) : Prop :=
  ∀ p x g g' r r', p ++ .name x :: g :: r ∈ keys → p ++ .name x :: g' :: r' ∈ keys →
    g.opener = g'.opener

theorem Unmixed.subset {keys keys' : List (List Segment)} (h : Unmixed keys)
    (hsub : ∀ s ∈ keys', s ∈ keys) : Unmixed keys' :=
  fun p x g g' r r' hr hr' => h p x g g' r r' (hsub _ hr) (hsub _ hr')

/-- Every key is shadowed by a topmost one or is topmost itself. -/
theorem exists_topmost {keys : List (List Segment)} {segments : List Segment}
    (h : segments ∈ keys) : ∃ q t, segments = q ++ t ∧ Topmost keys q := by
  induction hlen : segments.length using Nat.strong_induction_on generalizing segments with
  | _ len ih =>
      by_cases htop : Topmost keys segments
      · exact ⟨segments, [], by simp, htop⟩
      · obtain ⟨q, t, ht, rfl, hq⟩ : ∃ q t, t ≠ [] ∧ segments = q ++ t ∧ q ∈ keys := by
          by_contra hnot
          exact htop ⟨h, fun q t ht hsplit hq => hnot ⟨q, t, ht, hsplit, hq⟩⟩
        have hshort : q.length < len := by
          have := List.length_pos_iff.2 ht
          rw [List.length_append] at hlen
          omega
        obtain ⟨q', t', rfl, htop'⟩ := ih _ hshort hq rfl
        exact ⟨q', t' ++ t, by simp, htop'⟩

/-! ## Documents over a set of keys -/

/-- A normal document whose scalars all stand under texts of the keys. -/
structure Keyed (keys : List (List Segment)) (n : Node) : Prop where
  normal : n.Normal
  valid : ∀ segments ∈ keys, ∀ g ∈ segments, Key.IsSegment g
  spelled : ∀ t w, n.Held t w → ∃ segments ∈ keys, Spells segments t

/-- A document over the keys that holds a scalar for each of them. -/
structure Kept (keys : List (List Segment)) (n : Node) : Prop extends Keyed keys n where
  kept : ∀ segments ∈ keys, ∃ t w, Spells segments t ∧ n.Held t w

/-- A document over the keys that holds a scalar for each of them, under the text that is printed for
its segments. -/
structure Settled (keys : List (List Segment)) (n : Node) : Prop extends Keyed keys n where
  held : ∀ segments ∈ keys, ∃ w, n.Held (continued segments) w
  printed : ∀ t w, n.Held t w → ∃ segments ∈ keys, t = continued segments

section

variable {keys : List (List Segment)} {n c : Node} {segments p r : List Segment} {x : String}
  {g : Segment} {v : Value}

/-- An entry at which a key cannot go on is a scalar, and its path is the one of a key. -/
theorem Keyed.blocked (h : Keyed keys n) (hunmixed : Unmixed keys)
    (hkey : p ++ .name x :: g :: r ∈ keys) (hc : n.at? (p ++ [.name x]) = some c)
    (ho : c.opener ≠ some g.opener) : (∃ w, c = .leaf w) ∧ p ++ [.name x] ∈ keys := by
  have hnull : c ≠ .null := by
    rintro rfl
    obtain ⟨q, i, items, hlast, -⟩ := h.normal.exists_index_of_null hc (by simp)
    have := List.append_inj_right' hlast rfl
    simp at this
  have hvalid : ∀ g' ∈ p ++ [.name x], Key.IsSegment g' := by
    have hall := h.valid _ hkey
    rw [← List.singleton_append, ← List.append_assoc] at hall
    exact fun g' hg' => hall g' (List.mem_append_left _ hg')
  -- some scalar is held at or below the entry, under a text of a key that leads through it
  obtain ⟨t, w, ht⟩ := (h.normal.at? hc).exists_held (h.normal.filled_at? hc (by simp) hnull)
  have hheld : n.Held (continued (p ++ [.name x]) ++ t) w := by
    obtain ⟨path, hpath, rfl⟩ := ht
    exact ⟨_, Node.at?_append_eq_some.2 ⟨c, hc, hpath⟩, Key.continued_append _ _⟩
  obtain ⟨segments, hsegments, htext⟩ := h.spelled _ _ hheld
  obtain ⟨r', rfl, hr'⟩ := htext.of_continued_append hvalid ht.detached
  cases r' with
  | cons g' r' =>
      -- the key that is held there goes on with another kind of segment
      have hkind := hunmixed p x g g' r r' hkey (by simpa using hsegments)
      have hhead := hr'.head?
      rw [ht.head?, Key.lead_cons, ← hkind] at hhead
      exact absurd hhead ho
  | nil =>
      cases hr'
      refine ⟨?_, by simpa using hsegments⟩
      cases c with
      | leaf w' => exact ⟨w', rfl⟩
      | null => exact absurd rfl hnull
      | map entries => simpa using ht.head?
      | list items => simpa using ht.head?

/-- The path to the value of a key: its segments, or a compound name beside a scalar at the path of
another key. -/
theorem Keyed.at?_of_spells (h : Keyed keys n) (hunmixed : Unmixed keys) {q : List Segment}
    (hkey : segments ∈ keys) (hq : n.at? q = some (.leaf v)) (hs : Spells segments (continued q)) :
    q = segments ∨
      ∃ (p : List Segment) (x : String) (r : List Segment) (u : List Char) (w : Value),
        segments = p ++ .name x :: r ∧ r ≠ [] ∧ Spells r u ∧
          q = p ++ [.name (String.ofList (x.toList ++ u))] ∧
          n.at? (p ++ [.name x]) = some (.leaf w) ∧ p ++ [.name x] ∈ keys := by
  rcases Node.at?_of_spells h.normal hq hs with
    rfl | ⟨p, x, r, u, c, rfl, hr, hu, rfl, hc, ho⟩
  · exact .inl rfl
  · cases r with
    | nil => exact absurd rfl hr
    | cons g r =>
        rw [hu.head?, Key.lead_cons] at ho
        obtain ⟨⟨w, rfl⟩, hbase⟩ := h.blocked hunmixed hkey hc ho
        exact .inr ⟨p, x, g :: r, u, w, rfl, hr, hu, rfl, hc, hbase⟩

/-- The value of a topmost key stands at the path of its segments. -/
theorem Kept.at?_of_topmost (h : Kept keys n) (hunmixed : Unmixed keys)
    (htop : Topmost keys segments) : ∃ w, n.at? segments = some (.leaf w) := by
  obtain ⟨_, w, hspells, q, hq, rfl⟩ := h.kept segments htop.1
  rcases h.at?_of_spells hunmixed htop.1 hq hspells with
    rfl | ⟨p, x, r, u, w', rfl, hr, -, -, -, hbase⟩
  · exact ⟨w, hq⟩
  · exact absurd hbase (htop.2 _ r hr (by simp))

/-- Nothing stands behind the path of a key. -/
theorem Kept.not_at?_behind (h : Kept keys n) (hunmixed : Unmixed keys) (hkey : segments ∈ keys)
    {t : List Segment} (ht : t ≠ []) (a : Node) : n.at? (segments ++ t) ≠ some a := by
  intro ha
  obtain ⟨q, t', rfl, htop⟩ := exists_topmost hkey
  obtain ⟨w, hw⟩ := h.at?_of_topmost hunmixed htop
  rw [List.append_assoc, Node.at?_append, hw, Option.bind_some] at ha
  -- a scalar has nothing behind it
  obtain ⟨g, rest, hrest⟩ := List.exists_cons_of_ne_nil (show t' ++ t ≠ [] by simp [ht])
  rw [hrest] at ha
  cases g <;> simp [Node.at?] at ha

/-- What is found in a document at the path of a key, or in front of one, is topmost. -/
theorem Kept.topmost (h : Kept keys n) (hunmixed : Unmixed keys) (hkey : segments ∈ keys)
    {a : Node} (ha : n.at? segments = some a) : Topmost keys segments := by
  refine ⟨hkey, ?_⟩
  rintro q t ht rfl hq
  exact h.not_at?_behind hunmixed hq ht a ha

theorem Settled.toKept (h : Settled keys n) : Kept keys n where
  toKeyed := h.toKeyed
  kept := fun segments hkey =>
    ⟨_, _, Key.spells_continued (h.valid segments hkey), (h.held segments hkey).choose_spec⟩

end

/-! ## Runs that print every key -/

/-- Behind the segments of the first key, the second one is written as its segments are printed. -/
def PrintedBehind (e' e : String × Value) : Prop :=
  ∀ s r, Key.segments? e'.1 = some s → Key.segments? e.1 = some (s ++ r) →
    continued r <:+ '.' :: e.1.toList

section

variable {m m' : NodeMap} {entries : List (String × Value)} {keys : List (List Segment)}

theorem keyed_insertAll (h : insertAll [] entries = .ok m)
    (hsub : ∀ s ∈ keySegments entries, s ∈ keys)
    (hvalid : ∀ segments ∈ keys, ∀ g ∈ segments, Key.IsSegment g) : Keyed keys (.map m) where
  normal := normal_insertAll Node.normal_empty_map h
  valid := hvalid
  spelled := by
    intro t w ht
    rcases held_insertAll_imp Node.normal_empty_map h ht with ⟨e, he, s, hs, hspells, -⟩ | hempty
    · exact ⟨s, hsub s (mem_keySegments.2 ⟨e, he, hs⟩), hspells⟩
    · simp [Node.held_map] at hempty

/-- A key is held under its printed text, whatever shadows it. -/
theorem Lands.eq_continued {v : Value} {segments : List Segment} {s t : List Char}
    (h : Lands (.map m) (.map m') v segments s t) (hm : Keyed keys (.map m))
    (hunmixed : Unmixed keys) (hkey : segments ∈ keys)
    (hprinted : ∀ p r, p ∈ keys → r ≠ [] → segments = p ++ r → continued r <:+ s) :
    t = continued segments := by
  cases h with
  | exact _ => rfl
  | @compound p x r u c hsegments hr hsuffix hspells hc ho =>
      subst hsegments
      cases r with
      | nil => exact absurd rfl hr
      | cons g r =>
          rw [hspells.head?, Key.lead_cons] at ho
          obtain ⟨-, hbase⟩ := hm.blocked hunmixed hkey hc ho
          have hvalid : ∀ g' ∈ g :: r, Key.IsSegment g' := fun g' hg' =>
            hm.valid _ hkey g' (by simp [List.mem_cons.1 hg'])
          have hu : u = continued (g :: r) := hspells.eq_of_suffix (Key.spells_continued hvalid)
            hsuffix (hprinted _ (g :: r) hbase hr (by simp))
          rw [hu, ← Key.continued_append, List.append_assoc, List.singleton_append]

theorem kept_insertAll (h : insertAll [] entries = .ok m) :
    Kept (keySegments entries) (.map m) where
  toKeyed := keyed_insertAll h (fun s hs => hs) fun _ => isSegment_of_mem_keySegments
  kept := by
    intro s hs
    obtain ⟨e, he, hs⟩ := mem_keySegments.1 hs
    obtain ⟨s', t, w, hs', hspells, hheld⟩ := exists_held_of_mem Node.normal_empty_map h he
    obtain rfl : s' = s := by simpa [hs] using hs'.symm
    exact ⟨t, w, hspells, hheld⟩

/-- A key that is printed behind the keys before it writes its printed text. -/
theorem updates_of_printedBehind {front : List (String × Value)} {e : String × Value}
    (hunmixed : Unmixed (keySegments (front ++ [e]))) (hprinted : ∀ e' ∈ front, PrintedBehind e' e)
    (hfront : insertAll [] front = .ok m) (h : insertEntry m e = .ok m') :
    ∃ segments, Key.segments? e.1 = some segments ∧
      Updates (.map m) (.map m') (continued segments) e.2 := by
  have hkeyed := keyed_insertAll hfront (fun s hs => mem_keySegments_append_left hs [e])
    fun _ => isSegment_of_mem_keySegments
  obtain ⟨segments, hspells, hinserted⟩ := insertEntry_inserted hkeyed.normal h
  have hsegments := Key.segments?_eq_some_iff.2 hspells
  obtain ⟨t, hlands, hupdate⟩ := hinserted.update
  refine ⟨segments, hsegments, ?_⟩
  rwa [← hlands.eq_continued hkeyed hunmixed (mem_keySegments.2 ⟨e, by simp, hsegments⟩)]
  -- a key that shadows the new one is not the new one, so it has been there before
  intro p r hp hr hsplit
  obtain ⟨e', he', hpe⟩ := mem_keySegments.1 hp
  rcases List.mem_append.1 he' with he' | he'
  · exact hprinted e' he' p r hpe (hsplit ▸ hsegments)
  · obtain rfl : e' = e := by simpa using he'
    rw [hsegments, Option.some.injEq, hsplit] at hpe
    exact absurd (List.append_right_eq_self.1 hpe) hr

/-- A run over keys that go on in one way and are printed behind the keys before them gives a settled
document. -/
theorem settled_insertAll (hunmixed : Unmixed (keySegments entries))
    (hprinted : entries.Pairwise PrintedBehind) (h : insertAll [] entries = .ok m) :
    Settled (keySegments entries) (.map m) := by
  induction entries using List.reverseRecOn generalizing m with
  | nil =>
      obtain rfl := Except.ok.inj h
      exact ⟨(kept_insertAll h).toKeyed, by simp [keySegments], by simp [Node.held_map]⟩
  | append_singleton front e ih =>
      obtain ⟨m₁, hfront, hlast⟩ := insertAll_append_eq_ok_iff.1 h
      obtain ⟨m₂, hinsert, hnil⟩ := insertAll_cons_eq_ok_iff.1 hlast
      obtain rfl := Except.ok.inj hnil
      have hsub : ∀ s ∈ keySegments front, s ∈ keySegments (front ++ [e]) :=
        fun s hs => mem_keySegments_append_left hs [e]
      obtain ⟨hbefore, -, hbehind⟩ := List.pairwise_append.1 hprinted
      have hold := ih (hunmixed.subset hsub) hbefore hfront
      obtain ⟨segments, hsegments, hupdate⟩ := updates_of_printedBehind hunmixed
        (fun e' he' => hbehind e' he' e (by simp)) hfront hinsert
      refine ⟨(kept_insertAll h).toKeyed, ?_, ?_⟩
      · -- every key is held: the last one has just been written, the others stay
        intro s hs
        by_cases htext : continued s = continued segments
        · exact ⟨e.2, htext ▸ hupdate.held⟩
        · obtain ⟨e', he', hs'⟩ := mem_keySegments.1 hs
          rcases List.mem_append.1 he' with he' | he'
          · obtain ⟨w, hw⟩ := hold.held s (mem_keySegments.2 ⟨e', he', hs'⟩)
            exact ⟨w, (hupdate _ w).2 (.inr ⟨htext, hw⟩)⟩
          · obtain rfl : e' = e := by simpa using he'
            rw [hsegments, Option.some.injEq] at hs'
            exact absurd (by rw [hs']) htext
      · intro t w ht
        rcases (hupdate t w).1 ht with ⟨rfl, -⟩ | ⟨-, ht⟩
        · exact ⟨segments, mem_keySegments.2 ⟨e, by simp, hsegments⟩, rfl⟩
        · obtain ⟨s, hs, rfl⟩ := hold.printed t w ht
          exact ⟨s, hsub s hs, rfl⟩

theorem printedBehind_of_plain {e : String × Value} (hplain : Plain e.1.toList)
    (e' : String × Value) : PrintedBehind e' e := by
  intro s r _ hsr
  have htext := (Key.segments?_eq_some_iff.1 hsr).eq_continued hplain.cons_point
  rw [htext, Key.continued_append]
  exact List.suffix_append _ _

end

end LayeredConfig.Structure
