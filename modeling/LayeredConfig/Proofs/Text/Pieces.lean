import LayeredConfig.Text
import Mathlib.Data.List.Infix

/-!
# Texts divided by a pattern

How a text is divided one step at a time: a match in front is taken off whole, and a character that no
match starts at is kept.

* `pieces_of_some`, `pieces_of_none` — the two steps.
* `replaceMatches_of_some`, `replaceMatches_of_none` — the same steps of a replacement.
* `replaceMatches_eq_self_or` — what a replacement has done.
* `Spelled` — patterns that match by what stands there; `pieces_induction` — induction on a text by its pieces.
* `Apart`, `pieces_append` — two texts side by side that no match goes across.
-/

namespace LayeredConfig.Text

theorem contains_eq_true_iff {part s : List Char} : contains part s = true ↔ part <:+: s := by
  induction s with
  | nil => simp [contains]
  | cons c s ih =>
      rw [contains, Bool.or_eq_true, ih, List.infix_cons_iff, List.isPrefixOf_iff_prefix]

variable {α : Type} {pattern : Pattern α} {a : α} {c : Char} {m s : List Char}

theorem piecesAfter_eq (pattern : Pattern α) (skip : Nat) (s : List Char) :
    piecesAfter pattern skip s = pieces pattern (s.drop skip) := by
  induction skip generalizing s with
  | zero => rfl
  | succ skip ih =>
      cases s with
      | nil => rfl
      | cons c s => simpa [piecesAfter] using ih s

theorem pieces_of_some (h : pattern (m ++ s) = some (a, m.length)) (hm : m ≠ []) :
    pieces pattern (m ++ s) = .found a :: pieces pattern s := by
  cases m with
  | nil => exact absurd rfl hm
  | cons c m =>
      rw [List.cons_append] at h ⊢
      rw [pieces, piecesAfter, h]
      simp [piecesAfter_eq]

theorem pieces_of_none (h : pattern (c :: s) = none) :
    pieces pattern (c :: s) = .plain c :: pieces pattern s := by
  rw [pieces, piecesAfter, h]
  rfl

variable {written : α → List Char}

theorem replaceMatches_of_some (h : pattern (m ++ s) = some (a, m.length)) (hm : m ≠ []) :
    replaceMatches pattern written (m ++ s) = written a ++ replaceMatches pattern written s := by
  simp [replaceMatches, pieces_of_some h hm]

theorem replaceMatches_of_none (h : pattern (c :: s) = none) :
    replaceMatches pattern written (c :: s) = c :: replaceMatches pattern written s := by
  simp [replaceMatches, pieces_of_none h]

/-- A replacement leaves a text as it is, or writes something for a match. -/
theorem replaceMatches_eq_self_or (pattern : Pattern α) (written : α → List Char) (s : List Char) :
    replaceMatches pattern written s = s ∨
      ∃ a, ∀ c ∈ written a, c ∈ replaceMatches pattern written s := by
  induction s with
  | nil => exact .inl rfl
  | cons c s ih =>
      cases hmatch : pattern (c :: s) with
      | none =>
          rw [replaceMatches_of_none hmatch]
          rcases ih with heq | ⟨a, ha⟩
          · exact .inl (by rw [heq])
          · exact .inr ⟨a, fun d hd => List.mem_cons_of_mem c (ha d hd)⟩
      | some found =>
          obtain ⟨a, taken⟩ := found
          refine .inr ⟨a, fun d hd => ?_⟩
          rw [replaceMatches, pieces, piecesAfter, hmatch]
          exact List.mem_append_left _ hd

theorem occurrences_of_some (h : pattern (m ++ s) = some (a, m.length)) (hm : m ≠ []) :
    occurrences pattern (m ++ s) = a :: occurrences pattern s := by
  simp [occurrences, pieces_of_some h hm]

theorem occurrences_of_none (h : pattern (c :: s) = none) :
    occurrences pattern (c :: s) = occurrences pattern s := by
  simp [occurrences, pieces_of_none h]

/-! ## Matches that are spelled out -/

/-- A pattern matches the texts that spell something, wherever they stand, and none of them is empty. -/
structure Spelled (pattern : Pattern α) (Spells : α → List Char → Prop) : Prop where
  ne_nil : ∀ {a : α} {m : List Char}, Spells a m → m ≠ []
  eq_some_iff : ∀ {s : List Char} {a : α} {n : Nat},
    pattern s = some (a, n) ↔ ∃ m, Spells a m ∧ n = m.length ∧ m <+: s

variable {Spells : α → List Char → Prop} {t u : List Char}

theorem Spelled.match_append (h : Spelled pattern Spells) (hm : Spells a m) (s : List Char) :
    pattern (m ++ s) = some (a, m.length) :=
  h.eq_some_iff.2 ⟨m, hm, rfl, List.prefix_append m s⟩

/-- Induction on a text by its pieces: a match in front, or a character that none starts at. -/
theorem pieces_induction {P : List Char → Prop} (h : Spelled pattern Spells) (nil : P [])
    (found : ∀ a m s, Spells a m → P s → P (m ++ s))
    (plain : ∀ c s, pattern (c :: s) = none → P s → P (c :: s)) (s : List Char) : P s := by
  induction hk : s.length using Nat.strong_induction_on generalizing s with
  | _ k ih =>
      subst hk
      cases s with
      | nil => exact nil
      | cons c s =>
          cases hmatch : pattern (c :: s) with
          | none => exact plain c s hmatch (ih _ (by simp) s rfl)
          | some result =>
              obtain ⟨m, hm, -, t, ht⟩ := h.eq_some_iff.1 hmatch
              have hrest : t.length < (c :: s).length := by
                have hpos := List.length_pos_iff.2 (h.ne_nil hm)
                rw [← ht, List.length_append]
                omega
              rw [← ht]
              exact found _ m t hm (ih _ hrest t rfl)

/-! ## Texts side by side -/

/-- No match begins in a text and ends in the one behind it. -/
def Apart (Spells : α → List Char → Prop) (s t : List Char) : Prop :=
  ∀ a m u w, Spells a m → u ≠ [] → u <:+ s → w ≠ [] → w <+: t → m ≠ u ++ w

theorem Apart.of_suffix (h : Apart Spells s t) (hu : u <:+ s) : Apart Spells u t :=
  fun a m front w hm hfront hsuffix => h a m front w hm hfront (hsuffix.trans hu)

/-- What is matched at the start of a text does not depend on a text that it is apart from. -/
theorem Spelled.append_eq (h : Spelled pattern Spells) (hne : s ≠ []) (hapart : Apart Spells s t) :
    pattern (s ++ t) = pattern s := by
  refine Option.ext fun found => ?_
  obtain ⟨a, n⟩ := found
  rw [h.eq_some_iff, h.eq_some_iff]
  refine exists_congr fun m => and_congr_right fun hm => and_congr_right fun _ => ?_
  constructor
  · rintro ⟨v, hv⟩
    rcases List.append_eq_append_iff.1 hv with ⟨rest, rfl, -⟩ | ⟨w, hmw, hw⟩
    · exact List.prefix_append m rest
    · -- all of the match that would stand behind the text is nothing
      cases w with
      | nil => exact ⟨[], by rw [hmw, List.append_nil, List.append_nil]⟩
      | cons d w =>
          have hbehind : d :: w <+: t := ⟨v, hw.symm⟩
          exact absurd hmw (hapart a m s _ hm hne List.suffix_rfl (List.cons_ne_nil d w) hbehind)
  · exact fun hstart => hstart.trans (List.prefix_append s t)

theorem pieces_append (h : Spelled pattern Spells) (hapart : Apart Spells s t) :
    pieces pattern (s ++ t) = pieces pattern s ++ pieces pattern t := by
  induction s using pieces_induction h with
  | nil => rfl
  | found a m s hm ih =>
      have hne := h.ne_nil hm
      rw [List.append_assoc, pieces_of_some (h.match_append hm _) hne, pieces_of_some (h.match_append hm _) hne,
        List.cons_append, ih (hapart.of_suffix (List.suffix_append m s))]
  | plain c s hnone ih =>
      have hbefore : pattern (c :: (s ++ t)) = none := by
        rw [← List.cons_append, h.append_eq (List.cons_ne_nil c s) hapart, hnone]
      rw [List.cons_append, pieces_of_none hbefore, pieces_of_none hnone, List.cons_append,
        ih (hapart.of_suffix (List.suffix_cons c s))]

theorem occurrences_append (h : Spelled pattern Spells) (hapart : Apart Spells s t) :
    occurrences pattern (s ++ t) = occurrences pattern s ++ occurrences pattern t := by
  rw [occurrences, pieces_append h hapart, List.filterMap_append]
  rfl

theorem replaceMatches_append (h : Spelled pattern Spells) (hapart : Apart Spells s t) :
    replaceMatches pattern written (s ++ t) =
      replaceMatches pattern written s ++ replaceMatches pattern written t := by
  rw [replaceMatches, pieces_append h hapart, List.flatMap_append]
  rfl

end LayeredConfig.Text
