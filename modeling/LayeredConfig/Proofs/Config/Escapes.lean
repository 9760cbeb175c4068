import LayeredConfig.Proofs.Config.Substitution

/-!
# Texts that are kept as they are

Every text can be written in a configuration: with one more dollar sign in front of each reference it is read
back as it was, in any environment and without a variable being asked for.  Dollar signs that stand in front
of a reference already do not matter, since the one that is added is the nearest.

* `escape` — a text with its references escaped.
* `not_startsReference_escape`, `reference_cons_escape` — nothing else in an escaped text is a reference.
* `substitute_escape` — an escaped configuration is read back.
-/

namespace LayeredConfig.Substitution

open Value (mapStrings mapItems mapMembers mapStrings_mapStrings_of_leftInverse)

variable {vars : Variables} {c : Char} {w s t : List Char}

/-- A dollar sign and a name in braces stand at the start of a text. -/
def StartsReference (s : List Char) : Prop := ∃ w, IsVariable w ∧ '$' :: braced w <+: s

theorem startsReference_cons_iff :
    StartsReference (c :: s) ↔ c = '$' ∧ ∃ w, IsVariable w ∧ braced w <+: s := by
  simp only [StartsReference, List.cons_prefix_cons, eq_comm (a := '$')]
  constructor
  · rintro ⟨w, hw, rfl, hstart⟩
    exact ⟨rfl, w, hw, hstart⟩
  · rintro ⟨rfl, w, hw, hstart⟩
    exact ⟨w, hw, rfl, hstart⟩

instance : DecidablePred StartsReference
  | [] => isFalse fun ⟨_, _, hstart⟩ => List.cons_ne_nil _ _ (List.prefix_nil.1 hstart)
  | c :: s => decidable_of_iff (c = '$' ∧ (bracedName? s).isSome = true) <| by
    rw [startsReference_cons_iff, Option.isSome_iff_exists]
    simp only [bracedName?_eq_some_iff]

/-- A text with one more dollar sign in front of each reference. -/
def escape : List Char → List Char
  | [] => []
  | c :: s => if StartsReference (c :: s) then '$' :: c :: escape s else c :: escape s

/-! ## Escaped texts -/

theorem escape_cons_of_not (h : ¬ StartsReference (c :: s)) : escape (c :: s) = c :: escape s := by
  rw [escape, if_neg h]

theorem escape_append (hw : '$' ∉ w) (s : List Char) : escape (w ++ s) = w ++ escape s := by
  induction w with
  | nil => rfl
  | cons c w ih =>
      rw [List.mem_cons, not_or] at hw
      have hnot : ¬ StartsReference (c :: (w ++ s)) := fun hstarts =>
        hw.1 (startsReference_cons_iff.1 hstarts).1.symm
      rw [List.cons_append, escape_cons_of_not hnot, ih hw.2, List.cons_append]

theorem escape_reference (hw : IsVariable w) (s : List Char) :
    escape ('$' :: (braced w ++ s)) = '$' :: '$' :: (braced w ++ escape s) := by
  have hstarts : StartsReference ('$' :: (braced w ++ s)) :=
    ⟨w, hw, by rw [← List.cons_append]; exact List.prefix_append _ s⟩
  rw [escape, if_pos hstarts, escape_append hw.dollar_not_mem_braced]

/-- A text without dollar signs stands in front of an escaped text when it stands there before. -/
theorem prefix_escape_iff (hw : '$' ∉ w) : w <+: escape s ↔ w <+: s := by
  induction w generalizing s with
  | nil => simp
  | cons d w ih =>
      rw [List.mem_cons, not_or] at hw
      cases s with
      | nil => simp [escape]
      | cons c s =>
          by_cases hstarts : StartsReference (c :: s)
          · obtain ⟨rfl, -⟩ := startsReference_cons_iff.1 hstarts
            rw [escape, if_pos hstarts, List.cons_prefix_cons, List.cons_prefix_cons]
            simp [Ne.symm hw.1]
          · rw [escape_cons_of_not hstarts, List.cons_prefix_cons, List.cons_prefix_cons, ih hw.2]

theorem startsReference_cons_escape_iff : StartsReference (c :: escape s) ↔ StartsReference (c :: s) := by
  rw [startsReference_cons_iff, startsReference_cons_iff]
  refine and_congr_right fun _ => exists_congr fun w => and_congr_right fun hw => ?_
  exact prefix_escape_iff hw.dollar_not_mem_braced

/-- The dollar sign that is added keeps a reference away from the start. -/
theorem not_startsReference_escape (s : List Char) : ¬ StartsReference (escape s) := by
  cases s with
  | nil => exact fun ⟨_, _, hstart⟩ => List.cons_ne_nil _ _ (List.prefix_nil.1 hstart)
  | cons c s =>
      by_cases hstarts : StartsReference (c :: s)
      · obtain ⟨rfl, -⟩ := startsReference_cons_iff.1 hstarts
        rw [escape, if_pos hstarts, startsReference_cons_iff]
        rintro ⟨-, w, -, hstart⟩
        rw [braced, List.cons_prefix_cons] at hstart
        exact absurd hstart.1 (by decide)
      · rw [escape_cons_of_not hstarts, startsReference_cons_escape_iff]
        exact hstarts

/-- Where no reference is escaped none is read. -/
theorem reference_cons_escape (h : ¬ StartsReference (c :: s)) : reference (c :: escape s) = none := by
  rw [← startsReference_cons_escape_iff] at h
  cases hread : reference (c :: escape s) with
  | none => rfl
  | some found =>
      obtain ⟨r, n⟩ := found
      obtain ⟨hname, -, hstart⟩ := reference_eq_some_iff.1 hread
      cases r with
      | replaced name => exact absurd ⟨name.toList, hname, hstart⟩ h
      | escaped name =>
          rw [Reference.text, List.cons_prefix_cons] at hstart
          exact absurd ⟨name.toList, hname, hstart.2⟩ (not_startsReference_escape s)

/-- Induction on a text by its references, escaped or not. -/
theorem escape_induction {P : List Char → Prop} (nil : P [])
    (found : ∀ w s, IsVariable w → P s → P ('$' :: (braced w ++ s)))
    (plain : ∀ c s, ¬ StartsReference (c :: s) → P s → P (c :: s)) (s : List Char) : P s := by
  induction hk : s.length using Nat.strong_induction_on generalizing s with
  | _ k ih =>
      subst hk
      cases s with
      | nil => exact nil
      | cons c s =>
          by_cases hstarts : StartsReference (c :: s)
          · obtain ⟨rfl, w, hw, t, rfl⟩ := startsReference_cons_iff.1 hstarts
            refine found w t hw (ih t.length ?_ t rfl)
            simp only [List.length_cons, List.length_append]
            omega
          · exact plain c s hstarts (ih _ (by simp) s rfl)

/-- The reference that an escape stands for. -/
def escapedReference (w : List Char) : Reference := .escaped (String.ofList w)

theorem text_escapedReference (w : List Char) : (escapedReference w).text = '$' :: '$' :: braced w := by
  rw [escapedReference, Reference.text, String.toList_ofList]

theorem IsVariable.escapedReference (hw : IsVariable w) : IsVariable (escapedReference w).name.toList := by
  rwa [Substitution.escapedReference, Reference.name, String.toList_ofList]

theorem escape_reference_eq (hw : IsVariable w) (s : List Char) :
    escape ('$' :: (braced w ++ s)) = (escapedReference w).text ++ escape s := by
  rw [escape_reference hw, text_escapedReference, List.cons_append, List.cons_append]

/-- What is replaced in an escaped text are the escapes. -/
theorem filled_escape (vars : Variables) (s : List Char) : filled vars (escape s) = s := by
  induction s using escape_induction with
  | nil => rfl
  | found w s hw ih =>
      rw [escape_reference_eq hw, filled_text_append hw.escapedReference, ih, escapedReference,
        Reference.filled, String.toList_ofList]
      rfl
  | plain c s hnot ih => rw [escape_cons_of_not hnot, filled_cons (reference_cons_escape hnot), ih]

/-- An escaped text needs no variable. -/
theorem neededNames_escape (s : List Char) : neededNames (escape s) = [] := by
  induction s using escape_induction with
  | nil => rfl
  | found w s hw ih =>
      rw [escape_reference_eq hw, neededNames_text_append hw.escapedReference, ih]
      rfl
  | plain c s hnot ih => rw [escape_cons_of_not hnot, neededNames_cons (reference_cons_escape hnot), ih]

/-! ## Escaped configurations -/

/-- A configuration with the references in its strings escaped needs no variable and is read back as it was. -/
theorem substitute_escape (vars : Variables) (v : Value) :
    substitute vars (v.mapStrings escape) = .ok v ∧ referencedNames (v.mapStrings escape) = [] := by
  have hnames : referencedNames (v.mapStrings escape) = [] := by
    refine List.eq_nil_iff_forall_not_mem.2 fun name hname => ?_
    obtain ⟨place, hplace, hrefers⟩ := mem_referencedNames_iff.1 hname
    rw [strings_mapStrings, List.mem_map] at hplace
    obtain ⟨place, -, rfl⟩ := hplace
    have hneeded := mem_neededNames_iff.2 hrefers
    rw [neededNames_escape] at hneeded
    exact List.not_mem_nil hneeded
  refine ⟨substitute_eq_ok_iff.2 ⟨by simp [hnames], ?_⟩, hnames⟩
  exact (mapStrings_mapStrings_of_leftInverse (filled_escape vars) v).symm

/-- Dollar signs in front of a reference stay, and what is no reference is not escaped. -/
example : escape "$$${A}${B_2} $${c} $\x7bD".toList = "$$$${A}$${B_2} $${c} $\x7bD".toList := by decide

end LayeredConfig.Substitution
