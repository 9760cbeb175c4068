import LayeredConfig.Proofs.Key.Plain
import LayeredConfig.Redaction
import Mathlib

/-!
# Secret names

A key is secret by the text in front of its closing brackets: where that ends in a secret word, whatever
the case.  This is so for a key whose last dotted name is secret, and never for a key that ends in the
index of a list.

* `NamesSecret`, `DottedName` — the pattern of secret names, and the name that it is meant for.
* `isSensitive_iff` — the keys that are secret.
* `isSensitive_of_dottedName` — those whose last dotted name is, and which do not go on behind it.
* `not_isSensitive_of_endsInIndex` — elements of a list are not secret by their own keys.
-/

namespace LayeredConfig.Redaction

variable {c d : Char} {key name s t : List Char} {word : String}

/-! ## Case -/

/-- Points, brackets and digits. -/
def IsMark (c : Char) : Prop := c = '.' ∨ c = '[' ∨ c = ']' ∨ Text.isDigit c = true

instance : DecidablePred IsMark := fun c =>
  inferInstanceAs (Decidable (c = '.' ∨ c = '[' ∨ c = ']' ∨ Text.isDigit c = true))

theorem IsMark.isAlpha_eq_false (hc : IsMark c) : c.isAlpha = false := by
  rcases hc with rfl | rfl | rfl | hc
  · rfl
  · rfl
  · rfl
  · have hbounds := Key.isDigit_bounds hc
    have hupper : ¬ (65 ≤ c.toNat ∧ c.toNat ≤ 90) := by omega
    have hlower : ¬ (97 ≤ c.toNat ∧ c.toNat ≤ 122) := by omega
    rw [Char.isAlpha, Bool.or_eq_false_iff]
    exact ⟨decide_eq_false hupper, by simpa [Char.isLower, UInt32.le_iff_toNat_le] using hlower⟩

theorem toLower_eq_self (hc : c.isAlpha = false) : c.toLower = c := by
  apply Char.toLower_eq_of_not_isUpper
  intro hupper
  simp [Char.isAlpha, hupper] at hc

/-- Marks stand for themselves in any case. -/
theorem foldCase_eq_iff (hd : IsMark d) : foldCase c = d ↔ c = d := by
  constructor
  · intro h
    unfold foldCase at h
    split_ifs at h
    · exact absurd (h ▸ hd) (by decide)
    · exact absurd (h ▸ hd) (by decide)
    · have hc : c.isAlpha = false := by
        rw [← Char.isAlpha_toLower_eq_isAlpha, h, hd.isAlpha_eq_false]
      rwa [toLower_eq_self hc] at h
  · rintro rfl
    -- the two characters beyond the ASCII letters are no marks
    have hs : c ≠ '\u017f' := fun h => absurd (h ▸ hd) (by decide)
    have hk : c ≠ '\u212a' := fun h => absurd (h ▸ hd) (by decide)
    rw [foldCase, if_neg hs, if_neg hk, toLower_eq_self hd.isAlpha_eq_false]

theorem mem_map_foldCase_iff (hd : IsMark d) : d ∈ s.map foldCase ↔ d ∈ s := by
  simp [foldCase_eq_iff hd]

/-! ## Secret keys -/

/-- A secret word is not empty and holds no marks. -/
theorem secretWords_spec (h : word ∈ secretWords) :
    word.toList ≠ [] ∧ ∀ c ∈ word.toList, ¬ IsMark c := by
  revert word
  simp [secretWords, IsMark, Text.isDigit]

/-- A text ends in a secret word, in any case and with any closing brackets behind it. -/
def EndsSecret (key : List Char) : Prop :=
  ∃ word ∈ secretWords, ∃ brackets, (∀ c ∈ brackets, c = ']') ∧
    word.toList ++ brackets <:+ key.map foldCase

/-- The last name of a key stands in front of its closing brackets. -/
theorem exists_append_lastName (key : List Char) :
    ∃ front brackets, key = front ++ (lastName key ++ brackets) ∧ ∀ c ∈ brackets, c = ']' := by
  obtain ⟨tail, htail⟩ : ∃ tail, key.reverse.takeWhile (fun c => c ≠ '.' && c ≠ '[') = tail := ⟨_, rfl⟩
  obtain ⟨front, hfront⟩ : ∃ front, tail ++ front = key.reverse :=
    ⟨_, htail ▸ List.takeWhile_append_dropWhile⟩
  refine ⟨front.reverse, (tail.takeWhile (· = ']')).reverse, ?_, ?_⟩
  · rw [lastName, htail, ← List.reverse_append, List.takeWhile_append_dropWhile, ← List.reverse_append,
      hfront, List.reverse_reverse]
  · intro c hc
    simpa using List.mem_takeWhile_imp (List.mem_reverse.1 hc)

theorem dropWhile_close_append (hs : s ≠ []) (hclose : ∀ c ∈ s, c ≠ ']') (t : List Char) :
    (s ++ t).dropWhile (· = ']') = s ++ t := by
  cases s with
  | nil => exact absurd rfl hs
  | cons c s =>
      have hc : c ≠ ']' := hclose c List.mem_cons_self
      rw [List.cons_append, List.dropWhile_cons_of_neg (by simp [hc])]

/-- What stands in front of the closing brackets of a key, and has no points or brackets of its own, is the
end of the last name. -/
theorem lastName_append (front : List Char) {brackets : List Char} (hs : s ≠ [])
    (hplain : ∀ c ∈ s, (c ≠ '.' && c ≠ '[') = true ∧ c ≠ ']') (hbrackets : ∀ c ∈ brackets, c = ']') :
    lastName (front ++ (s ++ brackets)) =
      (front.reverse.takeWhile fun c => c ≠ '.' && c ≠ '[').reverse ++ s := by
  have hsplit : (front ++ (s ++ brackets)).reverse =
      brackets.reverse ++ (s.reverse ++ front.reverse) := by simp
  have hclosing : ∀ c ∈ brackets.reverse, (c ≠ '.' && c ≠ '[') = true ∧ decide (c = ']') = true := by
    intro c hc
    simp [hbrackets c (List.mem_reverse.1 hc)]
  have hname : ∀ c ∈ s.reverse, (c ≠ '.' && c ≠ '[') = true := by
    intro c hc
    exact (hplain c (List.mem_reverse.1 hc)).1
  have hstop := dropWhile_close_append (mt List.reverse_eq_nil_iff.1 hs) fun c hc =>
    (hplain c (List.mem_reverse.1 hc)).2
  -- read from its end, the key has the brackets first and then the text
  rw [lastName, hsplit, List.takeWhile_append_of_pos fun c hc => (hclosing c hc).1,
    List.takeWhile_append_of_pos hname, List.dropWhile_append_of_pos fun c hc => (hclosing c hc).2, hstop,
    List.reverse_append, List.reverse_reverse]

theorem isSensitive_eq_true_iff {key : String} :
    isSensitive key = true ↔
      ∃ word ∈ secretWords, word.toList <:+ (lastName key.toList).map foldCase := by
  simp [isSensitive, List.isSuffixOf_iff_suffix]

/-- The segments of a key do not matter for whether it is secret, since no secret word holds a mark. -/
theorem isSensitive_iff {key : String} : isSensitive key = true ↔ EndsSecret key.toList := by
  rw [isSensitive_eq_true_iff]
  constructor
  · rintro ⟨word, hword, hsuffix⟩
    obtain ⟨front, brackets, hkey, hbrackets⟩ := exists_append_lastName key.toList
    -- case does not matter for brackets
    refine ⟨word, hword, brackets, hbrackets, ?_⟩
    obtain ⟨before, hbefore⟩ := hsuffix
    have hfold : ∀ c ∈ brackets, foldCase c = id c := by
      intro c hc
      rw [hbrackets c hc]
      rfl
    have hunfolded : brackets.map foldCase = brackets :=
      (List.map_congr_left hfold).trans (List.map_id brackets)
    refine ⟨front.map foldCase ++ before, ?_⟩
    rw [hkey, List.map_append, List.map_append, hunfolded, ← hbefore]
    simp only [List.append_assoc]
  · rintro ⟨word, hword, brackets, hbrackets, front, hkey⟩
    obtain ⟨hne, hmark⟩ := secretWords_spec hword
    obtain ⟨front', rest, hsplit, -, hrest⟩ := List.map_eq_append_iff.1 hkey.symm
    obtain ⟨s, brackets', rfl, hs, hclosing⟩ := List.map_eq_append_iff.1 hrest
    -- the key spells the word in some case, so nothing in it ends a segment
    refine ⟨word, hword, ?_⟩
    rw [← hs, hsplit]
    rw [lastName_append front']
    · exact (List.suffix_append _ s).map foldCase
    · rintro rfl
      exact hne hs.symm
    · intro c hc
      have hcmark : ¬ IsMark c := by
        intro hcmark
        apply hmark c _ hcmark
        rw [← hs]
        exact (mem_map_foldCase_iff hcmark).2 hc
      simp only [IsMark, not_or] at hcmark
      simp [hcmark.1, hcmark.2.1, hcmark.2.2.1]
    · intro c hc
      have hclose : IsMark ']' := .inr (.inr (.inl rfl))
      rw [← foldCase_eq_iff hclose]
      apply hbrackets
      rw [← hclosing]
      exact List.mem_map_of_mem hc

/-! ## Names in a key -/

/-- A text ends in the index of a list. -/
def EndsInIndex (key : List Char) : Prop :=
  ∃ front digits, digits ≠ [] ∧ (∀ c ∈ digits, Text.isDigit c = true) ∧
    key = front ++ '[' :: (digits ++ [']'])

theorem not_endsInIndex_of_getLast? (h : s.getLast? ≠ some ']') : ¬ EndsInIndex s := by
  rintro ⟨front, digits, -, -, rfl⟩
  apply h
  rw [← List.cons_append, ← List.append_assoc, List.getLast?_concat]

/-- The last dotted name of a key: it stands behind the last point, and nothing but the indices of lists stand
behind it. -/
inductive DottedName : List Char → List Char → Prop
  | last {front name : List Char} (hfront : front = [] ∨ front.getLast? = some '.')
      (hname : '.' ∉ name) (hbare : ¬ EndsInIndex name) : DottedName (front ++ name) name
  | index {key name digits : List Char} (h : DottedName key name) (hdigits : digits ≠ [])
      (hdigit : ∀ c ∈ digits, Text.isDigit c = true) :
      DottedName (key ++ '[' :: (digits ++ [']'])) name

/-- The words of the pattern of secret names.  Two of them hold a point, which a dotted name does not. -/
def patternWords : List String := secretWords ++ ["api.key", "private.key"]

/-- A name is secret: it ends in a word of the pattern, in any case. -/
def NamesSecret (name : List Char) : Prop :=
  ∃ word ∈ patternWords, word.toList <:+ name.map foldCase

/-- A key is secret if its last dotted name is, and nothing stands behind that. -/
theorem endsSecret_of_dottedName (h : DottedName key name) (hsecret : NamesSecret name)
    (hbare : ¬ EndsInIndex key) : EndsSecret key := by
  cases h with
  | @index key name digits h hdigits hdigit => exact absurd ⟨key, digits, hdigits, hdigit, rfl⟩ hbare
  | @last front name hfront hname hend =>
      obtain ⟨word, hword, hsuffix⟩ := hsecret
      rcases List.mem_append.1 hword with hword | hpoint
      · refine ⟨word, hword, [], by simp, ?_⟩
        rw [List.append_nil, List.map_append]
        exact hsuffix.trans (List.suffix_append _ _)
      · -- a word with a point would put one into the name
        have hmem : '.' ∈ word.toList := by
          rcases List.mem_pair.1 hpoint with rfl | rfl <;> decide
        exact absurd ((mem_map_foldCase_iff (.inl rfl)).1 (hsuffix.subset hmem)) hname

theorem lastName_index (front : List Char) {digits : List Char} (hdigits : digits ≠ [])
    (hdigit : ∀ c ∈ digits, Text.isDigit c = true) :
    lastName (front ++ '[' :: (digits ++ [']'])) = digits := by
  have hplain : ∀ c ∈ digits, (c ≠ '.' && c ≠ '[') = true ∧ c ≠ ']' := by
    intro c hc
    exact ⟨Key.isNameChar_of_isDigit (hdigit c hc), Key.isDigit_ne_bracket (hdigit c hc)⟩
  have hname := lastName_append (front ++ ['[']) hdigits hplain (List.forall_mem_singleton.2 rfl)
  simpa using hname

/-- A key that ends in an index is not secret: the index is taken for its last name. -/
theorem not_isSensitive_of_endsInIndex {key : String} (h : EndsInIndex key.toList) :
    ¬ isSensitive key = true := by
  obtain ⟨front, digits, hdigits, hdigit, hkey⟩ := h
  rw [isSensitive_eq_true_iff, hkey, lastName_index front hdigits hdigit]
  -- a word would have to end in digits
  rintro ⟨word, hword, hsuffix⟩
  obtain ⟨hne, hmark⟩ := secretWords_spec hword
  obtain ⟨c, hc⟩ := List.exists_mem_of_ne_nil _ hne
  obtain ⟨d, hd, hfold⟩ := List.mem_map.1 (hsuffix.subset hc)
  have hdmark : IsMark d := .inr (.inr (.inr (hdigit d hd)))
  rw [(foldCase_eq_iff hdmark).2 rfl] at hfold
  exact hmark c hc (hfold ▸ hdmark)

end LayeredConfig.Redaction
