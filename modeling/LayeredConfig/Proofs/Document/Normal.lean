import LayeredConfig.Proofs.Document.Path

/-!
# Normal documents

The shape that structuring keeps at every moment.  Entries have distinct names, only the root may be
an empty container, a list does not end in a null slot, and a compound name stands beside the entry
that it conflicts with: `x.y` beside an `x` that is not a map, `x[0]` beside an `x` that is not a list.

Because of the last condition a text leads to at most one place of a normal document, although the
point of a compound name and the point between two names look alike:

* `entry_unique` — a text leads into one entry of a map only.
* `at?_of_continued_append` — where the texts of two paths agree, the paths do.
* `at?_of_spells` — the path that leads to a scalar is given by the segments of its text, the rest of
  which may stand in one compound name.
-/

namespace LayeredConfig.Node

open Key (Segment Spells IsName Detached stem behindStem)
open Key.text (continued)

/-- A scalar, or a container that holds something. -/
def Filled : Node → Prop
  | .map m => m ≠ []
  | .list items => items ≠ []
  | .leaf _ => True
  | .null => False

/-- Every name starts with a plain name, and a compound name is a scalar beside an entry at which the
rest of the name cannot go on. -/
def WellNamed (m : NodeMap) : Prop :=
  ∀ k n, NodeMap.get? m k = some n →
    stem k.toList ≠ [] ∧
      (behindStem k.toList ≠ [] →
        (∃ v, n = .leaf v) ∧
          ∃ b, NodeMap.get? m (String.ofList (stem k.toList)) = some b ∧
            b.opener ≠ (behindStem k.toList).head?)

/-- The shape of built documents; the node itself may be an empty container. -/
inductive Normal : Node → Prop
  | leaf (v : Value) : Normal (.leaf v)
  | null : Normal .null
  | map {m : NodeMap} (distinct : m.names.Nodup) (named : WellNamed m)
      (filled : ∀ k n, m.get? k = some n → n.Filled)
      (entries : ∀ k n, m.get? k = some n → Normal n) : Normal (.map m)
  | list {items : List Node} (last : ∀ n, items.getLast? = some n → n ≠ .null)
      (filled : ∀ (i : Nat) n, items[i]? = some n → n ≠ .null → n.Filled)
      (elements : ∀ (i : Nat) n, items[i]? = some n → Normal n) : Normal (.list items)

theorem normal_empty_map : Normal (.map []) :=
  .map List.nodup_nil (by simp [WellNamed]) (by simp) (by simp)

theorem normal_empty_list : Normal (.list []) := .list (by simp) (by simp) (by simp)

section

variable {m : NodeMap} {items : List Node} {k : String} {i : Nat} {n : Node}

theorem Normal.distinct (h : Normal (.map m)) : m.names.Nodup := by
  cases h
  assumption

theorem Normal.named (h : Normal (.map m)) : WellNamed m := by
  cases h
  assumption

theorem Normal.entry_filled (h : Normal (.map m)) (hk : m.get? k = some n) : n.Filled := by
  cases h with
  | map _ _ filled _ => exact filled k n hk

theorem Normal.entry (h : Normal (.map m)) (hk : m.get? k = some n) : n.Normal := by
  cases h with
  | map _ _ _ entries => exact entries k n hk

theorem Normal.last_ne_null (h : Normal (.list items)) (hl : items.getLast? = some n) :
    n ≠ .null := by
  cases h with
  | list last _ _ => exact last n hl

theorem Normal.element_filled (h : Normal (.list items)) (hi : items[i]? = some n)
    (hn : n ≠ .null) : n.Filled := by
  cases h with
  | list _ filled _ => exact filled i n hi hn

theorem Normal.element (h : Normal (.list items)) (hi : items[i]? = some n) : n.Normal := by
  cases h with
  | list _ _ elements => exact elements i n hi

/-- At or behind every element of a list there is one that is filled. -/
theorem Normal.exists_filled_element (h : Normal (.list items)) (hi : items[i]? = some n) :
    ∃ j c, i ≤ j ∧ items[j]? = some c ∧ c.Filled := by
  obtain ⟨hlt, -⟩ := List.getElem?_eq_some_iff.1 hi
  have hget : items[items.length - 1]? = some items[items.length - 1] :=
    List.getElem?_eq_getElem (by omega)
  have hlast : items[items.length - 1] ≠ .null :=
    h.last_ne_null (List.getLast?_eq_getElem?.trans hget)
  exact ⟨items.length - 1, _, by omega, hget, h.element_filled hget hlast⟩

/-- Every node of a normal document is normal. -/
theorem Normal.at? {a : Node} {path : List Segment} (hn : n.Normal) (h : n.at? path = some a) :
    a.Normal := by
  induction path generalizing n with
  | nil =>
      obtain rfl : n = a := by simpa using h
      exact hn
  | cons g path ih =>
      cases g with
      | name k =>
          obtain ⟨m, c, rfl, hc, h⟩ := at?_name_eq_some.1 h
          exact ih (hn.entry hc) h
      | index i =>
          obtain ⟨items, c, rfl, hc, h⟩ := at?_index_eq_some.1 h
          exact ih (hn.element hc) h

/-- Below the root of a normal document nothing is an empty container. -/
theorem Normal.filled_at? {a : Node} {path : List Segment} (hn : n.Normal)
    (h : n.at? path = some a) (hne : path ≠ []) (ha : a ≠ .null) : a.Filled := by
  obtain ⟨p, g, rfl⟩ : ∃ p g, path = p ++ [g] :=
    ⟨_, _, (List.dropLast_concat_getLast hne).symm⟩
  obtain ⟨c, hc, hlast⟩ := at?_append_eq_some.1 h
  cases g with
  | name k =>
      obtain ⟨m, d, rfl, hd, hnil⟩ := at?_name_eq_some.1 hlast
      obtain rfl : d = a := by simpa using hnil
      exact (hn.at? hc).entry_filled hd
  | index i =>
      obtain ⟨items, d, rfl, hd, hnil⟩ := at?_index_eq_some.1 hlast
      obtain rfl : d = a := by simpa using hnil
      exact (hn.at? hc).element_filled hd ha

/-- A null slot is an element of a list. -/
theorem Normal.exists_index_of_null {path : List Segment} (hn : n.Normal)
    (h : n.at? path = some .null) (hne : path ≠ []) :
    ∃ p i items, path = p ++ [.index i] ∧ n.at? p = some (.list items) ∧
      items[i]? = some .null := by
  obtain ⟨p, g, rfl⟩ : ∃ p g, path = p ++ [g] :=
    ⟨_, _, (List.dropLast_concat_getLast hne).symm⟩
  obtain ⟨c, hc, hnull⟩ := at?_append_eq_some.1 h
  cases g with
  | name k =>
      obtain ⟨m, d, rfl, hd, hnil⟩ := at?_name_eq_some.1 hnull
      obtain rfl : d = .null := by simpa using hnil
      exact absurd ((hn.at? hc).entry_filled hd) id
  | index i =>
      obtain ⟨items, d, rfl, hd, hnil⟩ := at?_index_eq_some.1 hnull
      obtain rfl : d = .null := by simpa using hnil
      exact ⟨p, i, items, rfl, hc, hd⟩

end

/-- Something is held wherever the document is filled. -/
theorem Normal.exists_held {n : Node} (hn : n.Normal) (hf : n.Filled) : ∃ t v, n.Held t v := by
  induction hn with
  | leaf v => exact ⟨[], v, held_leaf.2 ⟨rfl, rfl⟩⟩
  | null => exact hf.elim
  | @map m distinct named filled entries ih =>
      cases m with
      | nil => exact absurd rfl hf
      | cons e m =>
          obtain ⟨k, n⟩ := e
          have hget : NodeMap.get? ((k, n) :: m) k = some n := by simp [NodeMap.get?_cons]
          obtain ⟨t, v, ht⟩ := ih k n hget (filled k n hget)
          exact ⟨_, v, held_map.2 ⟨k, n, t, hget, ht, rfl⟩⟩
  | @list items last filled elements ih =>
      have hlist : Normal (.list items) := .list last filled elements
      have hfirst := List.getElem?_eq_getElem (List.length_pos_iff.2 hf)
      obtain ⟨i, n, -, hget, hn⟩ := hlist.exists_filled_element hfirst
      obtain ⟨t, v, ht⟩ := ih i n hget hn
      exact ⟨_, v, held_list.2 ⟨i, n, t, hget, ht, rfl⟩⟩

/-! ## One text, one place -/

/-- A text that can stand behind a node: nothing, or a tail that goes on with its opener. -/
def Follows (n : Node) (t : List Char) : Prop := t ≠ [] → t.head? = n.opener

theorem follows_nil (n : Node) : Follows n [] := fun h => absurd rfl h

theorem Held.follows {n : Node} {t : List Char} {v : Value} (h : n.Held t v) : Follows n t :=
  fun _ => h.head?

theorem Follows.eq_nil {v : Value} {t : List Char} (h : Follows (.leaf v) t) : t = [] := by
  by_contra hne
  have := h hne
  simp [hne] at this

theorem Follows.detached {n : Node} {t : List Char} (h : Follows n t) : Detached t := by
  intro c hc
  have hne : t ≠ [] := by
    rintro rfl
    simp at hc
  rw [h hne] at hc
  cases n <;> simp at hc <;> subst hc <;> rfl

theorem follows_continued_append {n a : Node} {path : List Segment} {t : List Char}
    (h : n.at? path = some a) (ht : Follows a t) : Follows n (continued path ++ t) := by
  cases path with
  | nil =>
      obtain rfl : n = a := by simpa using h
      simpa using ht
  | cons g path =>
      intro _
      have hhead := head?_continued h (List.cons_ne_nil g path)
      cases g <;> simpa using hhead

theorem follows_continued {n a : Node} {path : List Segment} (h : n.at? path = some a) :
    Follows n (continued path) := by
  simpa using follows_continued_append h (follows_nil a)

/-- A text leads into one entry of a map only. -/
theorem entry_unique {m : NodeMap} (hm : WellNamed m) {k k' : String} {c c' : Node}
    {u u' : List Char} (hk : m.get? k = some c) (hk' : m.get? k' = some c') (hu : Follows c u)
    (hu' : Follows c' u') (h : k.toList ++ u = k'.toList ++ u') : k = k' := by
  have hstem : stem k.toList = stem k'.toList := by
    rw [← Key.stem_append (s := k.toList) hu.detached, h, Key.stem_append hu'.detached]
  have hrest : behindStem k.toList ++ u = behindStem k'.toList ++ u' := by
    rw [← Key.behindStem_append hu.detached, h, Key.behindStem_append hu'.detached]
  -- the name of a plain entry cannot go on as a compound name beside it
  have hplain : ∀ {k k' : String} {c c' : Node} {u u' : List Char}, m.get? k = some c →
      m.get? k' = some c' → Follows c u → Follows c' u' → stem k.toList = stem k'.toList →
      behindStem k.toList ++ u = behindStem k'.toList ++ u' → behindStem k.toList = [] →
      behindStem k'.toList = [] := by
    intro k k' c c' u u' hk hk' hu hu' hstem hrest hnil
    by_contra hcompound
    obtain ⟨⟨v, rfl⟩, b, hb, hopener⟩ := (hm k' c' hk').2 hcompound
    obtain rfl : u' = [] := hu'.eq_nil
    rw [hnil, List.nil_append, List.append_nil] at hrest
    have hbase : String.ofList (stem k'.toList) = k := by
      rw [← hstem, ← String.toList_inj, String.toList_ofList]
      simpa [hnil] using Key.stem_append_behindStem k.toList
    rw [hbase, hk, Option.some.injEq] at hb
    subst hb
    rw [← hrest] at hcompound hopener
    exact hopener (hu hcompound).symm
  have hboth : behindStem k.toList = behindStem k'.toList := by
    by_cases hnil : behindStem k.toList = []
    · rw [hnil, hplain hk hk' hu hu' hstem hrest hnil]
    · have hnil' : behindStem k'.toList ≠ [] := fun h0 =>
        hnil (hplain hk' hk hu' hu hstem.symm hrest.symm h0)
      obtain ⟨⟨v, rfl⟩, -⟩ := (hm k c hk).2 hnil
      obtain ⟨⟨v', rfl⟩, -⟩ := (hm k' c' hk').2 hnil'
      rw [hu.eq_nil, hu'.eq_nil] at hrest
      simpa using hrest
  rw [← String.toList_inj, ← Key.stem_append_behindStem k.toList, hstem, hboth,
    Key.stem_append_behindStem]

/-- Where the text of one path goes on as the text of another, the path does. -/
theorem at?_of_continued_append {n a b : Node} {p q : List Segment} {t : List Char}
    (hn : n.Normal) (hp : n.at? p = some a) (hq : n.at? q = some b) (ht : Follows a t)
    (h : continued q = continued p ++ t) :
    ∃ r, q = p ++ r ∧ continued r = t ∧ a.at? r = some b := by
  -- by induction on the first path: its next text decides the next step of the second one
  induction p generalizing n q with
  | nil =>
      obtain rfl : n = a := by simpa using hp
      exact ⟨q, rfl, h, hq⟩
  | cons g p ih =>
      cases g with
      | name k =>
          obtain ⟨m, c, rfl, hc, hpc⟩ := at?_name_eq_some.1 hp
          cases q with
          | nil => simp at h
          | cons g' q =>
              cases g' with
              | index i => simp at h
              | name k' =>
                  obtain ⟨_, c', ⟨⟩, hc', hqc⟩ := at?_name_eq_some.1 hq
                  have htext : k'.toList ++ continued q = k.toList ++ (continued p ++ t) := by
                    simpa using h
                  obtain rfl := entry_unique hn.named hc' hc (follows_continued hqc)
                    (follows_continued_append hpc ht) htext
                  obtain rfl : c = c' := by simpa [hc] using hc'
                  obtain ⟨r, rfl, hr, har⟩ :=
                    ih (hn.entry hc) hpc hqc (List.append_cancel_left htext)
                  exact ⟨r, rfl, hr, har⟩
      | index i =>
          obtain ⟨items, c, rfl, hc, hpc⟩ := at?_index_eq_some.1 hp
          cases q with
          | nil => simp at h
          | cons g' q =>
              cases g' with
              | name k => simp at h
              | index i' =>
                  obtain ⟨_, c', ⟨⟩, hc', hqc⟩ := at?_index_eq_some.1 hq
                  have htext : Nat.toDigits 10 i' ++ ']' :: continued q =
                      Nat.toDigits 10 i ++ ']' :: (continued p ++ t) := by
                    simpa using h
                  obtain ⟨hdigits, hrest⟩ := Key.digits_append_inj
                    (fun _ => Key.isDigit_of_mem_toDigits) (fun _ => Key.isDigit_of_mem_toDigits)
                    htext
                  obtain rfl : i' = i := by
                    rw [← Key.indexValue_toDigits i', hdigits, Key.indexValue_toDigits]
                  obtain rfl : c = c' := by simpa [hc] using hc'
                  obtain ⟨r, rfl, hr, har⟩ := ih (hn.element hc) hpc hqc hrest
                  exact ⟨r, rfl, hr, har⟩

/-- Two paths of one text are equal. -/
theorem at?_text_injective {n a b : Node} {p q : List Segment} (hn : n.Normal)
    (hp : n.at? p = some a) (hq : n.at? q = some b) (h : continued q = continued p) :
    q = p ∧ a = b := by
  obtain ⟨r, rfl, hr, har⟩ :=
    at?_of_continued_append hn hp hq (follows_nil a) (by simpa using h)
  cases r with
  | nil => simpa using har
  | cons g r => cases g <;> simp at hr

theorem Held.unique {n : Node} {t : List Char} {v w : Value} (hn : n.Normal) (hv : n.Held t v)
    (hw : n.Held t w) : v = w := by
  obtain ⟨p, hp, rfl⟩ := hv
  obtain ⟨q, hq, h⟩ := hw
  simpa using (at?_text_injective hn hp hq h).2

/-- The path to a scalar follows the segments of its text, exactly or up to a name at which they
cannot go on; there the rest of the text is one compound name. -/
theorem at?_of_spells {n : Node} {v : Value} {q segments : List Segment} (hn : n.Normal)
    (hq : n.at? q = some (.leaf v)) (hs : Spells segments (continued q)) :
    q = segments ∨
      ∃ (p : List Segment) (x : String) (r : List Segment) (u : List Char) (c : Node),
        segments = p ++ .name x :: r ∧ r ≠ [] ∧ Spells r u ∧
          q = p ++ [.name (String.ofList (x.toList ++ u))] ∧
          n.at? (p ++ [.name x]) = some c ∧ c.opener ≠ u.head? := by
  induction q generalizing n segments with
  | nil =>
      cases hs
      exact .inl rfl
  | cons g q ih =>
      cases g with
      | name k =>
          obtain ⟨m, c, rfl, hc, hq⟩ := at?_name_eq_some.1 hq
          generalize ht : continued (.name k :: q) = t at hs
          cases hs with
          | nil => simp at ht
          | index => simp at ht
          | @name x segments s hx hs =>
              have htext : k.toList ++ continued q = x.toList ++ s := by simpa using ht
              have hstem : stem k.toList = x.toList := by
                rw [← Key.stem_append (follows_continued hq).detached, htext,
                  Key.stem_append hs.detached, hx.stem]
              have hrest : behindStem k.toList ++ continued q = s := by
                rw [← Key.behindStem_append (follows_continued hq).detached, htext,
                  Key.behindStem_append hs.detached, hx.behindStem, List.nil_append]
              by_cases hcompound : behindStem k.toList = []
              · -- a plain name is the name that is spelled
                obtain rfl : k = x := by
                  rw [← String.toList_inj, ← hstem]
                  simpa [hcompound] using (Key.stem_append_behindStem k.toList).symm
                have hs' : Spells segments (continued q) := by
                  rwa [← hrest, hcompound, List.nil_append] at hs
                rcases ih (hn.entry hc) hq hs' with rfl | ⟨p, y, r, u, b, rfl, hne, hu, rfl, hb, ho⟩
                · exact .inl rfl
                · exact .inr ⟨.name k :: p, y, r, u, b, rfl, hne, hu, rfl,
                    at?_name_eq_some.2 ⟨m, c, rfl, hc, hb⟩, ho⟩
              · -- a compound name is a scalar, so the path ends here with the whole rest of the text
                obtain ⟨⟨w, rfl⟩, b, hb, ho⟩ := (hn.named k c hc).2 hcompound
                have hnil : continued q = [] := (follows_continued hq).eq_nil
                obtain rfl : q = [] := by
                  cases q with
                  | nil => rfl
                  | cons g q => cases g <;> simp at hnil
                rw [hnil, List.append_nil] at hrest htext
                have hr : segments ≠ [] := by
                  rintro rfl
                  cases hs
                  exact hcompound hrest
                rw [hstem, String.ofList_toList] at hb
                exact .inr ⟨[], x, segments, s, b, rfl, hr, hs,
                  by rw [← htext, String.ofList_toList]; rfl,
                  at?_name_eq_some.2 ⟨m, b, rfl, hb, rfl⟩, by rwa [← hrest]⟩
      | index i =>
          obtain ⟨items, c, rfl, hc, hq⟩ := at?_index_eq_some.1 hq
          generalize ht : continued (.index i :: q) = t at hs
          cases hs with
          | nil => simp at ht
          | name => simp at ht
          | @index digits segments s hd hs =>
              have htext : Nat.toDigits 10 i ++ ']' :: continued q = digits ++ ']' :: s := by
                simpa using ht
              obtain ⟨rfl, rfl⟩ :=
                Key.digits_append_inj (fun _ => Key.isDigit_of_mem_toDigits) hd.2.1 htext
              rw [Key.indexValue_toDigits]
              rcases ih (hn.element hc) hq hs with rfl | ⟨p, y, r, u, b, rfl, hne, hu, rfl, hb, ho⟩
              · exact .inl rfl
              · exact .inr ⟨.index i :: p, y, r, u, b, rfl, hne, hu, rfl,
                  at?_index_eq_some.2 ⟨items, c, rfl, hc, hb⟩, ho⟩

/-! ## Ends -/

/-- What the end of a path is: a scalar, or a null slot without a value. -/
def end? : Node → Option (Option Value)
  | .leaf v => some (some v)
  | .null => some none
  | _ => none

theorem end?_eq_some_some {n : Node} {v : Value} : n.end? = some (some v) ↔ n = .leaf v := by
  cases n <;> simp [end?]

theorem end?_eq_some_none {n : Node} : n.end? = some none ↔ n = .null := by
  cases n <;> simp [end?]

theorem mem_ends {n : Node} (hn : n.Normal) {path : List Segment} {o : Option Value} :
    (path, o) ∈ ends n ↔ ∃ c, n.at? path = some c ∧ c.end? = some o := by
  induction hn generalizing path with
  | leaf v =>
      rcases path with _ | ⟨k | i, path⟩
      · simpa [ends, end?] using eq_comm
      · simp [ends, at?]
      · simp [ends, at?]
  | null =>
      rcases path with _ | ⟨k | i, path⟩
      · simpa [ends, end?] using eq_comm
      · simp [ends, at?]
      · simp [ends, at?]
  | @map m distinct named filled entries ih =>
      rw [ends, mem_entryEnds]
      constructor
      · rintro ⟨k, n, path, hmem, hend, rfl⟩
        have hget := (NodeMap.mem_iff_get? distinct).1 hmem
        obtain ⟨c, hc, ho⟩ := (ih k n hget).1 hend
        exact ⟨c, at?_name_eq_some.2 ⟨m, n, rfl, hget, hc⟩, ho⟩
      · rintro ⟨c, hc, ho⟩
        rcases path with _ | ⟨k | i, path⟩
        · obtain rfl : Node.map m = c := by simpa using hc
          simp [end?] at ho
        · obtain ⟨_, n, ⟨⟩, hget, hc⟩ := at?_name_eq_some.1 hc
          exact ⟨k, n, path, (NodeMap.mem_iff_get? distinct).2 hget, (ih k n hget).2 ⟨c, hc, ho⟩,
            rfl⟩
        · simp [at?] at hc
  | @list items last filled elements ih =>
      rw [ends, mem_itemEnds]
      constructor
      · rintro ⟨i, n, p, hget, hend, h⟩
        obtain ⟨c, hc, ho⟩ := (ih i n hget).1 hend
        obtain rfl : path = .index i :: p := by simpa using h
        exact ⟨c, at?_index_eq_some.2 ⟨items, n, rfl, hget, hc⟩, ho⟩
      · rintro ⟨c, hc, ho⟩
        rcases path with _ | ⟨k | i, path⟩
        · obtain rfl : Node.list items = c := by simpa using hc
          simp [end?] at ho
        · simp [at?] at hc
        · obtain ⟨_, n, ⟨⟩, hget, hc⟩ := at?_index_eq_some.1 hc
          exact ⟨i, n, path, hget, (ih i n hget).2 ⟨c, hc, ho⟩, by simp⟩

end LayeredConfig.Node
