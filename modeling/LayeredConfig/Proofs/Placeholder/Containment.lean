import LayeredConfig.Proofs.Placeholder.Passes

/-!
# Texts that are resolved where they stand

Placeholders are replaced in a finished text that holds many values.  A value is resolved there as it
would be on its own when it never ends within a placeholder on the way, and when no character of it is
taken for a masked opening.

* `Contained` — the values of which this holds.
* `ResolvesTo` — what a part of a text becomes, whatever stands behind it.
* `Contained.resolvesTo`, `Inert.resolvesTo`, `ResolvesTo.cons`, `ResolvesTo.append` — parts put together.
* `ResolvesTo.resolve_eq` — the whole.
-/

namespace LayeredConfig.Placeholder

variable {flat : Properties} {c : Char} {n : Nat} {s s' t t' w : List Char}

/-- A text that placeholders before and behind it do not mix with. -/
structure Contained (flat : Properties) (s : List Char) : Prop where
  /-- The character that stands for masked openings is put back with them. -/
  unmasked : maskChar ∈ s → hasOpening s = true
  /-- Before no pass does the text end within what may become a placeholder. -/
  closed : ∀ n < maxPasses, endsOpen (stage flat n s) = false

instance (flat : Properties) : DecidablePred (Contained flat) := fun s =>
  decidable_of_iff ((maskChar ∈ s → hasOpening s = true) ∧
    ∀ n < maxPasses, endsOpen (stage flat n s) = false) ⟨fun h => ⟨h.1, h.2⟩, fun h => ⟨h.1, h.2⟩⟩

/-- A text that nothing is replaced in. -/
structure Inert (s : List Char) : Prop where
  no_opening : hasOpening s = false
  no_mask : maskChar ∉ s

instance : DecidablePred Inert := fun s =>
  decidable_of_iff (hasOpening s = false ∧ maskChar ∉ s) ⟨fun h => ⟨h.1, h.2⟩, fun h => ⟨h.1, h.2⟩⟩

/-- What a part of a text is replaced by, whatever stands behind it. -/
structure ResolvesTo (flat : Properties) (s t : List Char) : Prop where
  unmasked : maskChar ∈ s → hasOpening s = true
  before : ∀ rest, Detached rest →
    unmask (resolveMasked flat (s ++ rest)) = t ++ unmask (resolveMasked flat rest)

/-! ## Texts without placeholders -/

theorem hasOpening_eq_true_iff : hasOpening s = true ↔ ['$', '{'] <:+: s := Text.contains_eq_true_iff

theorem hasOpening_append_left (h : hasOpening s = true) : hasOpening (s ++ t) = true :=
  hasOpening_eq_true_iff.2 ((hasOpening_eq_true_iff.1 h).trans (List.infix_append' [] s t))

theorem hasOpening_append_right (h : hasOpening t = true) : hasOpening (s ++ t) = true :=
  hasOpening_eq_true_iff.2 ((hasOpening_eq_true_iff.1 h).trans (List.suffix_append s t).isInfix)

theorem hasOpening_cons_iff :
    hasOpening (c :: s) = true ↔ ['$', '{'] <+: c :: s ∨ hasOpening s = true := by
  rw [hasOpening_eq_true_iff, hasOpening_eq_true_iff, List.infix_cons_iff]

theorem hasOpening_cons (h : hasOpening (c :: s) = false) : hasOpening s = false := by
  rw [← Bool.not_eq_true, hasOpening_cons_iff, not_or, Bool.not_eq_true] at h
  exact h.2

theorem hasOpening_of_no_dollar (h : '$' ∉ w) (s : List Char) : hasOpening (w ++ s) = hasOpening s := by
  induction w with
  | nil => rfl
  | cons c w ih =>
      rw [List.mem_cons, not_or] at h
      rw [List.cons_append, ← ih h.2, Bool.eq_iff_iff, hasOpening_cons_iff, or_iff_right]
      rintro ⟨t, ht⟩
      exact h.1 (List.cons.inj ht).1

theorem hasOpening_eq_false (h : '$' ∉ s) : hasOpening s = false := by
  rw [← Bool.not_eq_true, hasOpening_eq_true_iff]
  exact fun hpart => h (hpart.subset (by simp))

theorem not_isPrefix_of_hasOpening (h : hasOpening s = false) : ¬ ['$', '{'] <+: s := fun hstart => by
  rw [hasOpening_eq_true_iff.2 hstart.isInfix] at h
  contradiction

theorem mask_eq_self (h : ¬ ['\\', '$', '{'] <:+: s) : mask s = s := by
  induction s with
  | nil => rfl
  | cons c s ih =>
      rw [mask_cons fun hstart => h hstart.isInfix,
        ih fun hpart => h (hpart.trans (List.suffix_cons c s).isInfix)]

theorem reference_eq_none (h : hasOpening s = false) : reference s = none := by
  cases hfound : reference s with
  | none => rfl
  | some found =>
      obtain ⟨-, -, t, rfl⟩ := reference_eq_some_iff.1 hfound
      refine absurd ?_ (not_isPrefix_of_hasOpening h)
      rw [Reference.text_eq]
      exact ⟨_, rfl⟩

theorem pass_eq_self (h : hasOpening s = false) : pass flat s = s := by
  induction s with
  | nil => rfl
  | cons c s ih => rw [pass_cons (reference_eq_none h), ih (hasOpening_cons h)]

theorem stage_eq_self (h : hasOpening s = false) (n : Nat) : stage flat n s = s := by
  induction n with
  | zero =>
      refine mask_eq_self fun hpart => ?_
      have hopening : ['$', '{'] <:+: s :=
        (List.suffix_cons '\\' ['$', '{']).isInfix.trans hpart
      rw [hasOpening_eq_true_iff.2 hopening] at h
      contradiction
  | succ n ih => rw [stage_succ, ih, pass_eq_self h]

theorem endsOpen_eq_false (h : hasOpening s = false) : endsOpen s = false := by
  induction s with
  | nil => rfl
  | cons c s ih =>
      rw [endsOpen]
      · exact ih (hasOpening_cons h)
      · rintro t rfl rfl
        exact not_isPrefix_of_hasOpening h ⟨t, rfl⟩

theorem unmask_eq_self (h : maskChar ∉ s) : unmask s = s := by
  induction s with
  | nil => rfl
  | cons c s ih =>
      rw [List.mem_cons, not_or] at h
      rw [unmask, List.flatMap_cons, if_neg (Ne.symm h.1)]
      exact congrArg (c :: ·) (ih h.2)

theorem unmask_append (s t : List Char) : unmask (s ++ t) = unmask s ++ unmask t :=
  List.flatMap_append

theorem inert_of_no_dollar (hdollar : '$' ∉ s) (hmask : maskChar ∉ s) : Inert s :=
  ⟨hasOpening_eq_false hdollar, hmask⟩

theorem Inert.contained (h : Inert s) : Contained flat s where
  unmasked := fun hmem => absurd hmem h.no_mask
  closed := fun n _ => by rw [stage_eq_self h.no_opening, endsOpen_eq_false h.no_opening]

theorem Inert.resolve_eq (h : Inert s) : resolve flat s = s := by
  rw [resolve, if_neg (by simp [h.no_opening])]

/-- Where masks are told apart it does not matter whether a text holds an opening at all. -/
theorem resolve_eq_unmask (h : maskChar ∈ s → hasOpening s = true) :
    resolve flat s = unmask (resolveMasked flat s) := by
  cases hopening : hasOpening s with
  | true => rw [resolve, if_pos hopening]
  | false =>
      have hmask : maskChar ∉ s := fun hmem => by
        rw [h hmem] at hopening
        contradiction
      have hstage : resolveMasked flat s = s := by
        rw [resolveMasked_eq_stage, stage_eq_self hopening]
      rw [Inert.resolve_eq ⟨hopening, hmask⟩, hstage, unmask_eq_self hmask]

/-! ## Parts of a text -/

theorem resolvesTo_nil : ResolvesTo flat [] [] :=
  ⟨by simp, fun rest _ => by rw [List.nil_append, List.nil_append]⟩

theorem Contained.resolvesTo (h : Contained flat s) : ResolvesTo flat s (resolve flat s) where
  unmasked := h.unmasked
  before := by
    intro rest hrest
    have hstage : resolveMasked flat (s ++ rest) = resolveMasked flat s ++ resolveMasked flat rest := by
      simp only [resolveMasked_eq_stage]
      exact stage_append h.closed hrest
    rw [hstage, unmask_append, resolve_eq_unmask h.unmasked]

theorem Inert.resolvesTo (h : Inert s) : ResolvesTo flat s s := by
  have hcontained : Contained flat s := h.contained
  simpa [h.resolve_eq] using hcontained.resolvesTo

theorem ResolvesTo.append (h : ResolvesTo flat s t) (h' : ResolvesTo flat s' t')
    (hdetached : Detached s') : ResolvesTo flat (s ++ s') (t ++ t') where
  unmasked := by
    intro hmem
    rcases List.mem_append.1 hmem with hmem | hmem
    · exact hasOpening_append_left (h.unmasked hmem)
    · exact hasOpening_append_right (h'.unmasked hmem)
  before := by
    intro rest hrest
    rw [List.append_assoc, h.before _ (hdetached.append hrest), h'.before rest hrest,
      List.append_assoc]

theorem stage_cons (hdollar : c ≠ '$') (hslash : c ≠ '\\') (n : Nat) :
    stage flat n (c :: s) = c :: stage flat n s := by
  induction n with
  | zero => exact mask_cons_of_ne hslash s
  | succ n ih => rw [stage_succ, ih, pass_cons (reference_cons_of_ne hdollar _), stage_succ]

theorem ResolvesTo.cons (h : ResolvesTo flat s t) (hc : c ≠ '$' ∧ c ≠ '\\' ∧ c ≠ maskChar) :
    ResolvesTo flat (c :: s) (c :: t) where
  unmasked := by
    intro hmem
    rcases List.mem_cons.1 hmem with heq | hmem
    · exact absurd heq.symm hc.2.2
    · exact hasOpening_append_right (s := [c]) (h.unmasked hmem)
  before := by
    intro rest hrest
    have hstage : resolveMasked flat (c :: (s ++ rest)) = c :: resolveMasked flat (s ++ rest) := by
      rw [resolveMasked_eq_stage, resolveMasked_eq_stage, stage_cons hc.1 hc.2.1]
    rw [List.cons_append, hstage, ← List.singleton_append, unmask_append, h.before rest hrest,
      unmask_eq_self (by simpa using hc.2.2.symm)]
    rfl

/-- A whole text is resolved to what its parts are resolved to. -/
theorem ResolvesTo.resolve_eq (h : ResolvesTo flat s t) : resolve flat s = t := by
  have hbefore := h.before [] detached_nil
  have hnil : unmask (resolveMasked flat []) = [] := by
    rw [resolveMasked_eq_stage, stage_eq_self rfl]
    rfl
  rw [resolve_eq_unmask h.unmasked]
  simpa [hnil] using hbefore

end LayeredConfig.Placeholder
