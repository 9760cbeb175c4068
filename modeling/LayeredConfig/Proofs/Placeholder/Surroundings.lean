import LayeredConfig.Proofs.Placeholder.Containment

/-!
# Text around placeholders

Characters that take no part in placeholders or escapes open nothing and close nothing, so that every pass
goes over the text between them as if they were not there.  They come out as they are, with one exception:
the character that stands for masked openings is put back as an opening, though only where the text
between holds one, since a text without any is not searched at all.

* `Plain` — texts of such characters.
* `pass_append_plain`, `stage_append_plain`, `stage_plain_append` — passes over a surrounded text.
* `resolve_surrounded` — what a surrounded text is resolved to.
* `resolve_surrounded_iff` — when what surrounds it comes out unchanged.
-/

namespace LayeredConfig.Placeholder

variable {flat : Properties} {c : Char} {n : Nat} {p q s t : List Char}

/-- Characters that take no part in placeholders or escapes. -/
def isPlainChar (c : Char) : Bool := isDefaultChar c && c ≠ '\\'

/-- A text of characters that take no part in placeholders or escapes. -/
def Plain (s : List Char) : Prop := ∀ c ∈ s, isPlainChar c = true

instance : DecidablePred Plain := fun s => decidable_of_iff (s.all isPlainChar = true) List.all_eq_true

theorem isPlainChar_iff : isPlainChar c = true ↔ c ≠ '$' ∧ c ≠ '{' ∧ c ≠ '}' ∧ c ≠ '\\' := by
  simp [isPlainChar, isDefaultChar, and_assoc]

theorem Plain.not_mem (h : Plain s) (hc : isPlainChar c = false) : c ∉ s := fun hmem => by
  rw [h c hmem] at hc
  contradiction

theorem Plain.dollar_not_mem (h : Plain s) : '$' ∉ s := h.not_mem (by decide)

theorem Plain.slash_not_mem (h : Plain s) : '\\' ∉ s := h.not_mem (by decide)

theorem Plain.head_ne (h : Plain s) : ∀ c ∈ s.head?, c ≠ '$' ∧ c ≠ '{' := by
  intro c hc
  obtain ⟨hdollar, hopen, -⟩ := isPlainChar_iff.1 (h c (List.mem_of_mem_head? hc))
  exact ⟨hdollar, hopen⟩

/-! ## Passes over a surrounded text -/

theorem Reference.getLast?_text (r : Reference) : r.text.getLast? = some '}' := by
  rw [r.text_eq, ← List.cons_append, ← List.cons_append, List.getLast?_concat]

/-- A placeholder is never closed behind the text that it begins in. -/
theorem apart_plain (hq : Plain q) (s : List Char) : Text.Apart Reference.Spells s q := by
  rintro r m u w ⟨-, rfl⟩ - - hw hstart heq
  have hlast : w.getLast? = some '}' := by
    rw [← r.getLast?_text, heq, List.getLast?_append_of_ne_nil u hw]
  exact hq.not_mem (by decide) (hstart.subset (List.mem_of_getLast? hlast))

theorem pass_append_plain (hq : Plain q) (s : List Char) : pass flat (s ++ q) = pass flat s ++ q := by
  have happend : pass flat (s ++ q) = pass flat s ++ pass flat q :=
    Text.replaceMatches_append spelled_reference (apart_plain hq s)
  rw [happend, pass_eq_self (hasOpening_eq_false hq.dollar_not_mem)]

theorem mask_plain (hq : Plain q) : mask q = q :=
  mask_eq_self fun hpart => hq.slash_not_mem (hpart.subset List.mem_cons_self)

theorem stage_append_plain (hq : Plain q) (s : List Char) (n : Nat) :
    stage flat n (s ++ q) = stage flat n s ++ q := by
  induction n with
  | zero => rw [stage_zero, stage_zero, mask_append hq.head_ne, mask_plain hq]
  | succ n ih => rw [stage_succ, stage_succ, ih, pass_append_plain hq]

theorem stage_plain_append (hp : Plain p) (s : List Char) (n : Nat) :
    stage flat n (p ++ s) = p ++ stage flat n s := by
  induction n with
  | zero => exact mask_of_no_slash hp.slash_not_mem s
  | succ n ih => rw [stage_succ, stage_succ, ih, pass_of_no_dollar hp.dollar_not_mem]

/-! ## Openings and masks -/

theorem hasOpening_append_plain (hq : Plain q) (s : List Char) : hasOpening (s ++ q) = hasOpening s := by
  induction s with
  | nil => rw [List.nil_append, hasOpening_eq_false hq.dollar_not_mem, hasOpening_eq_false List.not_mem_nil]
  | cons c s ih =>
      have hstart : ['$', '{'] <+: c :: (s ++ q) ↔ ['$', '{'] <+: c :: s := by
        cases s with
        | nil =>
            have hopen : '{' ∉ q := hq.not_mem (by decide)
            constructor
            · rintro ⟨t, ht⟩
              obtain ⟨-, rfl⟩ : '$' = c ∧ '{' :: t = q := by simpa using ht
              exact absurd List.mem_cons_self hopen
            · rintro ⟨t, ht⟩
              simp at ht
        | cons d s => simp
      rw [List.cons_append, Bool.eq_iff_iff, hasOpening_cons_iff, hasOpening_cons_iff, hstart, ih]

theorem hasOpening_surrounded (hp : Plain p) (hq : Plain q) (t : List Char) :
    hasOpening (p ++ t ++ q) = hasOpening t := by
  rw [hasOpening_append_plain hq, hasOpening_of_no_dollar hp.dollar_not_mem]

theorem unmask_mask_cons (s : List Char) : unmask (maskChar :: s) = '$' :: '{' :: unmask s := rfl

theorem unmask_cons_of_ne (h : c ≠ maskChar) (s : List Char) : unmask (c :: s) = c :: unmask s := by
  rw [unmask, List.flatMap_cons, if_neg h]
  rfl

/-- Every mask is one character longer as an opening. -/
theorem length_unmask (s : List Char) : (unmask s).length = s.length + s.count maskChar := by
  induction s with
  | nil => rfl
  | cons c s ih =>
      by_cases hc : c = maskChar
      · subst hc
        rw [unmask_mask_cons, List.length_cons, List.length_cons, ih, List.length_cons, List.count_cons_self]
        omega
      · rw [unmask_cons_of_ne hc, List.length_cons, ih, List.length_cons, List.count_cons_of_ne hc]
        omega

theorem unmask_eq_self_iff : unmask s = s ↔ maskChar ∉ s := by
  refine ⟨fun heq => ?_, unmask_eq_self⟩
  have hlength := length_unmask s
  rw [heq] at hlength
  exact List.count_eq_zero.1 (by omega)

/-! ## What surrounds a text -/

/-- Around a text in which a placeholder is opened the masks are put back as openings as well. -/
theorem resolve_surrounded (hp : Plain p) (hq : Plain q) (t : List Char) :
    resolve flat (p ++ t ++ q) =
      if hasOpening t then unmask p ++ resolve flat t ++ unmask q else p ++ t ++ q := by
  rw [resolve, hasOpening_surrounded hp hq]
  cases hopening : hasOpening t with
  | false => rw [if_neg Bool.false_ne_true, if_neg Bool.false_ne_true]
  | true =>
      have hstage : resolveMasked flat (p ++ t ++ q) = p ++ resolveMasked flat t ++ q := by
        rw [resolveMasked_eq_stage, resolveMasked_eq_stage, stage_append_plain hq, stage_plain_append hp]
      rw [if_pos rfl, if_pos rfl, hstage, unmask_append, unmask_append, resolve, if_pos hopening]

/-- What surrounds a text comes out unchanged, unless it holds masks and the text an opening. -/
theorem resolve_surrounded_iff (hp : Plain p) (hq : Plain q) (t : List Char) :
    resolve flat (p ++ t ++ q) = p ++ resolve flat t ++ q ↔
      (hasOpening t = true → maskChar ∉ p ∧ maskChar ∉ q) := by
  rw [resolve_surrounded hp hq]
  cases hopening : hasOpening t with
  | false => simp [resolve, hopening]
  | true =>
      rw [if_pos rfl]
      constructor
      · intro heq _
        have hlength := congrArg List.length heq
        simp only [List.length_append, length_unmask] at hlength
        have hcount : p.count maskChar = 0 ∧ q.count maskChar = 0 := by omega
        exact ⟨List.count_eq_zero.1 hcount.1, List.count_eq_zero.1 hcount.2⟩
      · intro hmask
        obtain ⟨hmaskp, hmaskq⟩ := hmask rfl
        rw [unmask_eq_self hmaskp, unmask_eq_self hmaskq]

/-- The properties of one host. -/
def hostProperties : Properties := .ofList [("host", .string "h1"), ("port", .null)]

theorem resolve_surrounded_iff_address :
    Plain "Größe: ".toList ∧ Plain " (\ud7ff)".toList ∧
      resolve hostProperties
        ("Größe: ".toList ++ "${host}:${port:80} $\x7bopen".toList ++ " (\ud7ff)".toList) =
          "Größe: ".toList ++ "h1:80 $\x7bopen".toList ++ " (\ud7ff)".toList := by
  have hp : Plain "Größe: ".toList := by decide
  have hq : Plain " (\ud7ff)".toList := by decide
  refine ⟨hp, hq, ?_⟩
  have hresolved : resolve hostProperties "${host}:${port:80} $\x7bopen".toList =
      "h1:80 $\x7bopen".toList := by decide
  rw [(resolve_surrounded_iff hp hq _).2 fun _ => by decide, hresolved]

/-- A mask in front of a placeholder becomes an opening. -/
theorem not_unchanged_around :
    ¬ ∀ (flat : Properties) (p t q : List Char), Plain p → Plain q →
      resolve flat (p ++ t ++ q) = p ++ resolve flat t ++ q := by
  intro h
  have hmask := h hostProperties [maskChar] "${host}".toList [] (by decide) (by decide)
  exact absurd hmask (by decide)

end LayeredConfig.Placeholder
