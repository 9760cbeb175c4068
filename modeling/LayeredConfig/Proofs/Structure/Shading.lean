import LayeredConfig.Proofs.Structure.Settled

/-!
# Which orders succeed

Two keys clash if they share an index and go on differently behind it.  The one that comes second
fails, unless a shorter key that ends in a name has been inserted before both of them: such a key
*shades* the clash, since it keeps what goes on behind it in compound names.

* `exists_insertAll_of_sorted` — if every clash is shaded, short keys first is an order that succeeds.
* `not_insertAll_of_open_clash` — if some clash is not, no order succeeds.
* `exists_failing_order` — if there is a clash, some order fails.
-/

namespace LayeredConfig.Structure

open Key (Segment lead)

/-- A key that ends in a name stands on the path `p`. -/
def Shaded (keys : List (List Segment)) (p : List Segment) : Prop :=
  ∃ q x t, p = q ++ .name x :: t ∧ q ++ [.name x] ∈ keys

variable {m : NodeMap} {n : Node} {keys : List (List Segment)} {e e' : String × Value}
  {entries front rest : List (String × Value)} {p s r r' : List Segment} {i : Nat}

/-- Two properties can come first. -/
theorem perm_cons_cons (he' : e' ∈ entries) (he : e ∈ entries) (hne : e ≠ e') :
    ∃ rest, (e' :: e :: rest).Perm entries := by
  have hmem : e ∈ entries.erase e' := (List.mem_erase_of_ne hne).2 he
  exact ⟨(entries.erase e').erase e,
    ((List.perm_cons_erase hmem).symm.cons e').trans (List.perm_cons_erase he').symm⟩

theorem opener_eq_lead_of_leaf {v : Value} (h : n.at? r = some (.leaf v)) : n.opener = lead r := by
  by_cases hr : r = []
  · subst hr
    obtain rfl : n = .leaf v := by simpa using h
    rfl
  · exact Node.opener_eq_lead h hr

/-- Where no key ends in a name on the way, a key that leads through an element has put something there
that goes on as the key does. -/
theorem Kept.exists_element (h : Kept keys n) (hunmixed : Unmixed keys)
    (hkey : p ++ .index i :: r ∈ keys) (hopen : ¬ Shaded keys p) :
    ∃ c, n.at? (p ++ [.index i]) = some c ∧ c ≠ .null ∧ c.opener = lead r := by
  -- the value of the key stands behind the element, if only under a compound name
  obtain ⟨r', w, hw, hlead⟩ : ∃ r' w, n.at? (p ++ [.index i] ++ r') = some (.leaf w) ∧
      lead r' = lead r := by
    obtain ⟨_, w, hspells, q, hq, rfl⟩ := h.kept _ hkey
    rcases h.at?_of_spells hunmixed hkey hq hspells with
      rfl | ⟨p', x, r', u, w', hsplit, -, -, -, hw', hbase⟩
    · exact ⟨r, w, by simpa using hq, rfl⟩
    · rcases List.append_eq_append_iff.1 hsplit with ⟨a, rfl, ha⟩ | ⟨a, rfl, ha⟩
      · rcases a with _ | ⟨g, a⟩
        · simp at ha
        · obtain ⟨rfl, rfl⟩ := List.cons.inj ha
          refine ⟨a ++ [.name x], w', by simpa using hw', ?_⟩
          cases a <;> rfl
      · rcases a with _ | ⟨g, a⟩
        · simp at ha
        · obtain ⟨rfl, -⟩ := List.cons.inj ha
          exact absurd ⟨p', x, a, rfl, hbase⟩ hopen
  obtain ⟨c, hc, hleaf⟩ := Node.at?_append_eq_some.1 hw
  refine ⟨c, hc, ?_, (opener_eq_lead_of_leaf hleaf).trans hlead⟩
  rintro rfl
  exact Node.not_held_null ⟨r', hleaf, rfl⟩

/-- A key fails if it clashes with a key before it that no key in a name shades. -/
theorem not_insertAll_of_clash (hunmixed : Unmixed (keySegments front))
    (hkey : p ++ .index i :: r ∈ keySegments front)
    (he : Key.segments? e.1 = some (p ++ .index i :: r')) (hlead : lead r ≠ lead r')
    (hopen : ¬ Shaded (keySegments front) p) : insertAll [] (front ++ e :: rest) ≠ .ok m := by
  intro h
  obtain ⟨m₁, hfront, hrest⟩ := insertAll_append_eq_ok_iff.1 h
  obtain ⟨m₂, hinsert, -⟩ := insertAll_cons_eq_ok_iff.1 hrest
  obtain ⟨c, hc, hnull, ho⟩ := (kept_insertAll hfront).exists_element hunmixed hkey hopen
  have hclash : Clashes (.map m₁) (p ++ .index i :: r') :=
    ⟨p, i, r', c, rfl, hc, hnull, by rwa [ho]⟩
  obtain ⟨problem, hfail⟩ := (insertEntry_fails_iff he).2 hclash
  rw [hinsert] at hfail
  contradiction

/-- The number of segments of a key. -/
def depth (e : String × Value) : Nat := ((Key.segments? e.1).getD []).length

theorem depth_eq (h : Key.segments? e.1 = some s) : depth e = s.length := by
  simp [depth, h]

/-- If all clashes are shaded, inserting short keys first succeeds. -/
theorem exists_insertAll_of_sorted (hread : ∀ e ∈ entries, ∃ s, Key.segments? e.1 = some s)
    (hunmixed : Unmixed (keySegments entries))
    (hshaded : ∀ p i, Clash (keySegments entries) p i → Shaded (keySegments entries) p)
    (hsorted : entries.Pairwise fun e' e => depth e' ≤ depth e) :
    ∃ m, insertAll [] entries = .ok m := by
  cases hresult : insertAll [] entries with
  | ok m => exact ⟨m, rfl⟩
  | error x =>
      obtain ⟨before, e, after, m₁, p, i, r, r', c, rfl, -, he, hearlier, hlead, hbefore, hc⟩ :=
        exists_clash_of_insertAll_eq_error hread hresult
      have hsub : ∀ s ∈ keySegments before, s ∈ keySegments (before ++ e :: after) :=
        fun s hs => mem_keySegments_append_left hs _
      obtain ⟨q, x, t, rfl, hshade⟩ :=
        hshaded p i ⟨r', r, hsub _ hearlier, mem_keySegments.2 ⟨e, by simp, he⟩, hlead⟩
      obtain ⟨e₀, he₀, hq⟩ := mem_keySegments.1 hshade
      have hlonger : depth e₀ < depth e := by
        rw [depth_eq hq, depth_eq he]
        simp only [List.length_append, List.length_cons, List.length_nil]
        omega
      -- short keys come first, so the shading key is not behind the one that fails
      rcases List.mem_append.1 he₀ with he₀ | he₀
      · -- the shading key is there already, so nothing stands at the element
        have hkept := kept_insertAll hbefore
        have hnot := hkept.not_at?_behind (hunmixed.subset hsub) (mem_keySegments.2 ⟨e₀, he₀, hq⟩)
          (show t ++ [.index i] ≠ [] by simp) c
        exact absurd (by simpa using hc) hnot
      · have hle : depth e ≤ depth e₀ := by
          rcases List.mem_cons.1 he₀ with rfl | he₀
          · exact le_rfl
          · exact (List.pairwise_cons.1 (List.pairwise_append.1 hsorted).2.1).1 e₀ he₀
        omega

/-- If a clash is not shaded, no order succeeds. -/
theorem not_insertAll_of_open_clash (hunmixed : Unmixed (keySegments entries))
    (hclash : Clash (keySegments entries) p i) (hopen : ¬ Shaded (keySegments entries) p) :
    insertAll [] entries ≠ .ok m := by
  obtain ⟨r, r', hr, hr', hlead⟩ := hclash
  obtain ⟨e, he, hs⟩ := mem_keySegments.1 hr
  obtain ⟨e', he', hs'⟩ := mem_keySegments.1 hr'
  -- whichever of the two comes second fails
  have hfails : ∀ {front rest : List (String × Value)} {e' : String × Value} {r r' : List Segment},
      entries = front ++ e' :: rest → p ++ .index i :: r ∈ keySegments front →
      Key.segments? e'.1 = some (p ++ .index i :: r') → lead r ≠ lead r' →
      insertAll [] entries ≠ .ok m := by
    rintro front rest e' r r' rfl hkey hs' hlead
    have hsub : ∀ s ∈ keySegments front, s ∈ keySegments (front ++ e' :: rest) :=
      fun s hs => mem_keySegments_append_left hs _
    refine not_insertAll_of_clash (hunmixed.subset hsub) hkey hs' hlead ?_
    rintro ⟨q, x, t, hp, hq⟩
    exact hopen ⟨q, x, t, hp, hsub _ hq⟩
  obtain ⟨front, rest, rfl⟩ := List.append_of_mem he'
  rcases List.mem_append.1 he with he | he
  · exact hfails rfl (mem_keySegments.2 ⟨e, he, hs⟩) hs' hlead
  · rcases List.mem_cons.1 he with rfl | he
    · rw [hs, Option.some.injEq, List.append_cancel_left_eq, List.cons.injEq] at hs'
      exact absurd (by rw [hs'.2]) hlead
    · obtain ⟨middle, rest, rfl⟩ := List.append_of_mem he
      have hsplit : front ++ e' :: (middle ++ e :: rest) = front ++ e' :: middle ++ e :: rest := by
        simp
      exact hfails hsplit (mem_keySegments.2 ⟨e', by simp, hs'⟩) hs hlead.symm

/-- A clashing key that comes first makes the other one fail. -/
theorem exists_failing_order (hclash : Clash (keySegments entries) p i) :
    ∃ entries', entries'.Perm entries ∧ ∀ m, insertAll [] entries' ≠ .ok m := by
  obtain ⟨r, r', hr, hr', hlead⟩ := hclash
  obtain ⟨e, he, hs⟩ := mem_keySegments.1 hr
  obtain ⟨e', he', hs'⟩ := mem_keySegments.1 hr'
  have hne : e' ≠ e := by
    rintro rfl
    rw [hs, Option.some.injEq, List.append_cancel_left_eq, List.cons.injEq] at hs'
    exact absurd (by rw [hs'.2]) hlead
  obtain ⟨rest, hperm⟩ := perm_cons_cons he he' hne
  refine ⟨_, hperm, fun m => ?_⟩
  -- one key before the other is too long to shade the clash
  have hkeys : keySegments [e] = [p ++ .index i :: r] := by simp [keySegments, hs]
  have hone : ∀ s ∈ keySegments [e], s = p ++ .index i :: r := by simp [hkeys]
  show insertAll [] ([e] ++ e' :: rest) ≠ .ok m
  refine not_insertAll_of_clash ?_ (by simp [hkeys]) hs' hlead ?_
  · intro q x g g' t t' ht ht'
    have hsame := (hone _ ht).trans (hone _ ht').symm
    simp only [List.append_cancel_left_eq, List.cons.injEq, true_and] at hsame
    rw [hsame.1]
  · rintro ⟨q, x, t, rfl, hq⟩
    have hlen := congrArg List.length (hone _ hq)
    simp only [List.length_append, List.length_cons, List.length_nil] at hlen
    omega

end LayeredConfig.Structure
