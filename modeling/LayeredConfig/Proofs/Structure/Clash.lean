import LayeredConfig.Proofs.Structure.Insertion

/-!
# Clashes at list elements

A map keeps keys that cannot go on as compound names; a list cannot.  An insertion fails exactly where
the key reaches an element that something has been put into already and that the rest of the key does
not go on at.

* `Clashes` — the segments of a key clash with an element of a document.
* `insertKey_fails_iff` — an insertion fails exactly on a clash.
* `Clashes.exists_held` — a clash is one with a scalar of the document, whose text shares an index with
  the key and goes on differently behind it.
-/

namespace LayeredConfig.Structure

open Key (Segment Scanned Token lead)
open Key.text (continued)
open Node (Normal)

variable {m : NodeMap} {n : Node} {segments : List Segment}

/-- The segments lead to an element that is not empty, and the rest of them cannot go on at it. -/
def Clashes (n : Node) (segments : List Segment) : Prop :=
  ∃ p i r c, segments = p ++ .index i :: r ∧ n.at? (p ++ [.index i]) = some c ∧ c ≠ .null ∧
    c.opener ≠ lead r

/-- Segments that clash go on at the node. -/
theorem Clashes.opener (h : Clashes n segments) : n.opener = lead segments := by
  obtain ⟨p, i, r, c, rfl, hc, -, -⟩ := h
  rw [Node.opener_eq_lead hc (by simp)]
  cases p <;> rfl

theorem Vacant.not_clashes (h : Vacant n) : ¬ Clashes n segments := by
  rintro ⟨p, i, r, c, rfl, hc, -, -⟩
  simp [h.at?_eq_none] at hc

theorem clashes_nil : ¬ Clashes n [] := by
  rintro ⟨p, i, r, c, hnil, -⟩
  simp at hnil

/-- A fresh node clashes with nothing. -/
theorem clashes_occupant {o : Option Node} :
    Clashes (occupant segments o) segments ↔ ∃ c, o = some c ∧ Clashes c segments := by
  rcases occupant_cases segments o with ⟨ho, -⟩ | ⟨hfree, hblank⟩
  · constructor
    · exact fun h => ⟨_, ho, h⟩
    · rintro ⟨c, hc, h⟩
      rw [hc, Option.some.injEq] at ho
      rwa [hc, ← ho]
  · rw [hblank]
    refine iff_of_false (vacant_blank segments).not_clashes ?_
    rintro ⟨c, rfl, h⟩
    obtain rfl : c = .null := by simpa using hfree
    exact Vacant.not_clashes (.inl rfl) h

theorem clashes_name {k : String} :
    Clashes (.map m) (.name k :: segments) ↔ Clashes (occupant segments (m.get? k)) segments := by
  rw [clashes_occupant]
  constructor
  · rintro ⟨p, i, r, a, hsegments, ha, hnull, ho⟩
    rcases p with _ | ⟨g, p⟩
    · simp at hsegments
    · obtain ⟨rfl, rfl⟩ := List.cons.inj hsegments
      obtain ⟨_, c, ⟨⟩, hc, ha⟩ := Node.at?_name_eq_some.1 ha
      exact ⟨c, hc, p, i, r, a, rfl, ha, hnull, ho⟩
  · rintro ⟨c, hc, p, i, r, a, rfl, ha, hnull, ho⟩
    exact ⟨.name k :: p, i, r, a, rfl, Node.at?_name_eq_some.2 ⟨m, c, rfl, hc, ha⟩, hnull, ho⟩

theorem clashes_index {items : List Node} {i : Nat} :
    Clashes (.list items) (.index i :: segments) ↔
      (occupant segments items[i]?).opener ≠ lead segments ∨
        Clashes (occupant segments items[i]?) segments := by
  rw [clashes_occupant]
  constructor
  · rintro ⟨p, j, r, a, hsegments, ha, hnull, ho⟩
    rcases p with _ | ⟨g, p⟩
    · obtain ⟨hi, rfl⟩ := List.cons.inj hsegments
      obtain rfl : i = j := by simpa using hi
      obtain ⟨_, c, ⟨⟩, hc, ha⟩ := Node.at?_index_eq_some.1 ha
      obtain rfl : c = a := by simpa using ha
      rw [hc, occupant_some hnull]
      exact .inl ho
    · obtain ⟨rfl, rfl⟩ := List.cons.inj hsegments
      obtain ⟨_, c, ⟨⟩, hc, ha⟩ := Node.at?_index_eq_some.1 ha
      exact .inr ⟨c, hc, p, j, r, a, rfl, ha, hnull, ho⟩
  · rintro (ho | ⟨c, hc, p, j, r, a, rfl, ha, hnull, ho⟩)
    · have hnull : occupant segments items[i]? ≠ .null := by
        rcases occupant_cases segments items[i]? with ⟨-, hnull⟩ | ⟨-, hblank⟩
        · exact hnull
        · exact absurd (hblank ▸ opener_blank segments) ho
      exact ⟨[], i, segments, _, rfl,
        Node.at?_index_eq_some.2 ⟨items, _, rfl, eq_some_occupant ho, rfl⟩, hnull, ho⟩
    · exact ⟨.index i :: p, j, r, a, rfl, Node.at?_index_eq_some.2 ⟨items, c, rfl, hc, ha⟩,
        hnull, ho⟩

theorem map_eq_error {ε α β : Type} {f : α → β} {x : Except ε α} {e : ε} :
    x.map f = .error e ↔ x = .error e := by
  cases x <;> simp [Except.map]

/-- An insertion fails exactly on a clash, by induction on the tokens: descending fails where the
insertion below does, and an element that cannot be descended into is a clash. -/
theorem insertInto_fails_iff {v : Value} {tokens : List Token} :
    (∃ e, insertInto v tokens n = .error e) ↔ Clashes n (tokens.map Token.segment) := by
  induction tokens generalizing n with
  | nil => simp [insertInto, clashes_nil]
  | cons token tokens ih =>
      obtain ⟨segment, q, text⟩ := token
      rw [List.map_cons]
      cases segment with
      | name k =>
          cases n with
          | map m =>
              rw [insertInto, clashes_name, ← ih]
              by_cases hopen : (occupant (tokens.map Token.segment) (NodeMap.get? m k)).opener =
                  lead (tokens.map Token.segment)
              · simp only [if_pos hopen, map_eq_error]
              · -- a map takes every key, and a key does not clash where it does not go on
                rw [ih]
                refine iff_of_false ?_ (mt Clashes.opener hopen)
                rw [if_neg hopen]
                split <;> simp
          | list | leaf | null =>
              rw [insertInto]
              · exact iff_of_false (by simp) fun h => absurd h.opener (by simp)
              all_goals simp
      | index i =>
          cases n with
          | list items =>
              rw [insertInto, clashes_index, ← ih]
              by_cases hopen : (occupant (tokens.map Token.segment) items[i]?).opener =
                  lead (tokens.map Token.segment)
              · rw [if_pos hopen, or_iff_right (not_not.2 hopen)]
                simp only [map_eq_error]
              · refine iff_of_true ?_ (.inl hopen)
                rw [if_neg hopen]
                split <;> exact ⟨_, rfl⟩
          | map | leaf | null =>
              rw [insertInto]
              · exact iff_of_false (by simp) fun h => absurd h.opener (by simp)
              all_goals simp

/-- Inserting a key fails exactly if its segments clash with an element of the document. -/
theorem insertKey_fails_iff {key : List Char} {tokens : List Token}
    (hs : Scanned 0 tokens ('.' :: key)) (v : Value) :
    (∃ e, insertKey m v tokens = .error e) ↔ Clashes (.map m) (tokens.map Token.segment) := by
  rw [← @insertInto_fails_iff _ v, ← insertKey_eq hs m v]
  simp only [map_eq_error]

/-- Something has been put at or below the element of a clash, and it goes on differently. -/
theorem Clashes.exists_held (hn : n.Normal) (h : Clashes n segments) :
    ∃ p i r c t w, segments = p ++ .index i :: r ∧ n.at? (p ++ [.index i]) = some c ∧
      n.Held (continued (p ++ [.index i]) ++ t) w ∧ Key.Detached t ∧ t.head? ≠ lead r := by
  obtain ⟨p, i, r, c, rfl, hc, hnull, ho⟩ := h
  have hfilled := hn.filled_at? hc (by simp) hnull
  obtain ⟨t, w, ht⟩ := (hn.at? hc).exists_held hfilled
  have hdetached := ht.detached
  have hhead := ht.head?
  obtain ⟨path, hpath, rfl⟩ := ht
  refine ⟨p, i, r, c, continued path, w, rfl, hc,
    ⟨_, Node.at?_append_eq_some.2 ⟨c, hc, hpath⟩, ?_⟩, hdetached, by rwa [hhead]⟩
  rw [Key.continued_append]

end LayeredConfig.Structure
