import LayeredConfig.Words
import Mathlib.Data.List.DropRight
import Mathlib.Data.List.Infix

/-!
# Fields, trimming and words

The words between commas are parts of the text that they are read from: they hold no comma, are not
blank and have no white space around them.

* `fields_append`, `fields_append_of_not_mem`, `head?_fields` — a separator divides the fields of a text.
* `fields_joinWith` — the fields of joined parts.
* `infix_of_mem_fields`, `trim_isInfix` — a field and a trimmed text are parts of the text.
* `exists_trim`, `exists_trimEnd`, `trim_trim`, `trim_append` — what trimming takes away and what it leaves.
* `trim_eq_nil_iff`, `trim_eq_singleton_iff` — the texts of which nothing or a single character is left.
* `mem_commaWords_iff`, `isWord_of_mem_commaWords` — the words of a text.
* `commaWords_eq_nil_iff` — the texts without words.
-/

namespace LayeredConfig

namespace Text

variable {separator : Char} {s field : List Char}

/-! ## Fields -/

theorem fields_ne_nil (separator : Char) (s : List Char) : fields separator s ≠ [] := by
  cases s with
  | nil => simp [fields]
  | cons c s =>
      rw [fields]
      split
      · simp
      · split <;> simp

/-- A character that is no separator belongs to the first field. -/
theorem fields_cons_of_ne {c : Char} (h : c ≠ separator) (s : List Char) :
    ∃ first rest, fields separator s = first :: rest ∧
      fields separator (c :: s) = (c :: first) :: rest := by
  obtain ⟨first, rest, hs⟩ := List.exists_cons_of_ne_nil (fields_ne_nil separator s)
  exact ⟨first, rest, hs, by rw [fields, if_neg h, hs]⟩

theorem fields_cons_self (separator : Char) (s : List Char) :
    fields separator (separator :: s) = [] :: fields separator s := by
  rw [fields, if_pos rfl]

/-- A separator divides the fields of a text. -/
theorem fields_append (separator : Char) (a b : List Char) :
    fields separator (a ++ separator :: b) = fields separator a ++ fields separator b := by
  induction a with
  | nil => rw [List.nil_append, fields_cons_self, fields, List.singleton_append]
  | cons c a ih =>
      rw [List.cons_append]
      by_cases h : c = separator
      · subst h
        rw [fields_cons_self, ih, fields_cons_self, List.cons_append]
      · obtain ⟨first, rest, ha, hca⟩ := fields_cons_of_ne h a
        obtain ⟨first', rest', hab, hcab⟩ := fields_cons_of_ne h (a ++ separator :: b)
        rw [ih, ha, List.cons_append] at hab
        obtain ⟨rfl, rfl⟩ := List.cons.inj hab
        rw [hcab, hca, List.cons_append]

theorem fields_of_not_mem (h : separator ∉ s) : fields separator s = [s] := by
  induction s with
  | nil => rfl
  | cons c s ih =>
      rw [List.mem_cons, not_or] at h
      rw [fields, if_neg (Ne.symm h.1), ih h.2]

theorem not_mem_of_mem_fields (h : field ∈ fields separator s) : separator ∉ field := by
  induction s generalizing field with
  | nil =>
      rw [fields, List.mem_singleton] at h
      simp [h]
  | cons c s ih =>
      by_cases hc : c = separator
      · subst hc
        rw [fields_cons_self, List.mem_cons] at h
        rcases h with rfl | h
        · simp
        · exact ih h
      · obtain ⟨first, rest, hs, hcs⟩ := fields_cons_of_ne hc s
        rw [hcs, List.mem_cons] at h
        rcases h with rfl | h
        · have hfirst : separator ∉ first := ih (by simp [hs])
          simp [Ne.symm hc, hfirst]
        · exact ih (by simp [hs, h])

/-- The first field stands at the start of the text. -/
theorem prefix_of_fields_eq_cons {rest : List (List Char)} (h : fields separator s = field :: rest) :
    field <+: s := by
  induction s generalizing field rest with
  | nil =>
      obtain ⟨rfl, -⟩ := List.cons.inj h
      exact List.prefix_rfl
  | cons c s ih =>
      by_cases hc : c = separator
      · subst hc
        rw [fields_cons_self] at h
        obtain ⟨rfl, -⟩ := List.cons.inj h
        exact List.nil_prefix
      · obtain ⟨first, rest', hs, hcs⟩ := fields_cons_of_ne hc s
        rw [hcs] at h
        obtain ⟨rfl, -⟩ := List.cons.inj h
        exact (List.prefix_cons_inj c).2 (ih hs)

theorem head?_fields (separator : Char) (s : List Char) :
    (fields separator s).head? = some (s.takeWhile (· ≠ separator)) := by
  induction s with
  | nil => rfl
  | cons c s ih =>
      by_cases hc : c = separator
      · subst hc
        simp [fields_cons_self]
      · obtain ⟨first, rest, hs, hcs⟩ := fields_cons_of_ne hc s
        rw [hs, List.head?_cons, Option.some.injEq] at ih
        rw [hcs, List.head?_cons, ih, List.takeWhile_cons_of_pos (by simp [hc])]

/-- A text without separators goes in front of the first field. -/
theorem fields_append_of_not_mem {a : List Char} (h : separator ∉ a) (s : List Char) :
    fields separator (a ++ s) = (a ++ s.takeWhile (· ≠ separator)) :: (fields separator s).tail := by
  induction a with
  | nil =>
      obtain ⟨first, rest, hs⟩ := List.exists_cons_of_ne_nil (fields_ne_nil separator s)
      have hhead := head?_fields separator s
      rw [hs, List.head?_cons, Option.some.injEq] at hhead
      rw [List.nil_append, List.nil_append, hs, List.tail_cons, hhead]
  | cons c a ih =>
      rw [List.mem_cons, not_or] at h
      rw [List.cons_append, fields, if_neg (Ne.symm h.1), ih h.2, List.cons_append]

theorem infix_of_mem_fields (h : field ∈ fields separator s) : field <:+: s := by
  induction s generalizing field with
  | nil =>
      rw [fields, List.mem_singleton] at h
      simp [h]
  | cons c s ih =>
      by_cases hc : c = separator
      · subst hc
        rw [fields_cons_self, List.mem_cons] at h
        rcases h with rfl | h
        · exact List.nil_infix
        · exact List.infix_cons (ih h)
      · obtain ⟨first, rest, hs, hcs⟩ := fields_cons_of_ne hc s
        rw [hcs, List.mem_cons] at h
        rcases h with rfl | h
        · exact (prefix_of_fields_eq_cons hcs).isInfix
        · exact List.infix_cons (ih (by simp [hs, h]))

/-- What holds of all characters of all fields holds of all characters that do not separate them. -/
theorem forall_mem_fields_iff {p : Char → Prop} :
    (∀ field ∈ fields separator s, ∀ c ∈ field, p c) ↔ ∀ c ∈ s, c = separator ∨ p c := by
  induction s with
  | nil => simp [fields]
  | cons d s ih =>
      by_cases hd : d = separator
      · subst hd
        simp [fields_cons_self, ih]
      · obtain ⟨first, rest, hs, hds⟩ := fields_cons_of_ne hd s
        rw [hs, List.forall_mem_cons] at ih
        rw [hds, List.forall_mem_cons, List.forall_mem_cons, List.forall_mem_cons, and_assoc, ih]
        simp [hd]

theorem joinWith_cons_cons (between part next : List Char) (rest : List (List Char)) :
    joinWith between (part :: next :: rest) = part ++ between ++ joinWith between (next :: rest) := rfl

/-- The fields of joined parts are those of the parts one after another. -/
theorem fields_joinWith {parts : List (List Char)} (h : parts ≠ []) :
    fields separator (joinWith [separator] parts) = parts.flatMap (fields separator) := by
  induction parts with
  | nil => contradiction
  | cons part rest ih =>
      cases rest with
      | nil => simp [joinWith]
      | cons next rest =>
          rw [List.flatMap_cons, ← ih (List.cons_ne_nil _ _), ← fields_append, joinWith_cons_cons,
            List.append_assoc, List.singleton_append]

theorem joinWith_ne_nil {between part : List Char} {parts : List (List Char)} (hpart : part ∈ parts)
    (hne : part ≠ []) : joinWith between parts ≠ [] := by
  induction parts with
  | nil => simp at hpart
  | cons first rest ih =>
      cases rest with
      | nil =>
          obtain rfl := List.mem_singleton.1 hpart
          exact hne
      | cons next rest =>
          intro hnil
          rw [joinWith_cons_cons, List.append_eq_nil_iff, List.append_eq_nil_iff] at hnil
          rcases List.mem_cons.1 hpart with rfl | hrest
          · exact hne hnil.1.1
          · exact ih hrest hnil.2

theorem mem_of_mem_joinWith {c : Char} {between : List Char} {parts : List (List Char)}
    (h : c ∈ joinWith between parts) : c ∈ between ∨ ∃ part ∈ parts, c ∈ part := by
  induction parts with
  | nil => simp [joinWith] at h
  | cons part rest ih =>
      cases rest with
      | nil => exact .inr ⟨part, List.mem_cons_self, h⟩
      | cons next rest =>
          rw [joinWith_cons_cons, List.mem_append, List.mem_append] at h
          rcases h with (hpart | hbetween) | hrest
          · exact .inr ⟨part, List.mem_cons_self, hpart⟩
          · exact .inl hbetween
          · exact (ih hrest).imp_right fun ⟨p, hp, hc⟩ => ⟨p, List.mem_cons_of_mem part hp, hc⟩

/-! ## Trimming -/

theorem trim_isInfix (s : List Char) : trim s <:+: s :=
  (List.rdropWhile_prefix isBlank (trimStart s)).isInfix.trans
    (List.dropWhile_suffix isBlank).isInfix

/-- What is left starts with a character that is not blank. -/
theorem not_isBlank_head_trim {c : Char} {t : List Char} (h : trim s = c :: t) :
    isBlank c = false := by
  obtain ⟨rest, hrest⟩ : trim s <+: trimStart s := List.rdropWhile_prefix isBlank (trimStart s)
  rw [h, List.cons_append] at hrest
  have hhead := List.head?_dropWhile_not isBlank s
  rw [← trimStart, ← hrest] at hhead
  simpa using hhead

theorem trimEnd_trim (s : List Char) : trimEnd (trim s) = trim s :=
  List.rdropWhile_idempotent isBlank (trimStart s)

theorem trimEnd_eq_nil_iff : trimEnd s = [] ↔ ∀ c ∈ s, isBlank c = true := by
  simp [trimEnd]

/-- Only white space is trimmed away at the end. -/
theorem exists_trimEnd (s : List Char) : ∃ back, s = trimEnd s ++ back ∧ ∀ c ∈ back, isBlank c = true := by
  refine ⟨(s.reverse.takeWhile isBlank).reverse, ?_,
    fun c hc => List.mem_takeWhile_imp (List.mem_reverse.1 hc)⟩
  rw [trimEnd, ← List.reverse_append, List.takeWhile_append_dropWhile, List.reverse_reverse]

theorem trimEnd_append_of_isBlank {back : List Char} (h : ∀ c ∈ back, isBlank c = true) :
    trimEnd (s ++ back) = trimEnd s := by
  have hback : back.reverse.dropWhile isBlank = [] :=
    List.dropWhile_eq_nil_iff.2 fun c hc => h c (List.mem_reverse.1 hc)
  rw [trimEnd, List.reverse_append, List.dropWhile_append, hback]
  rfl

/-- Only white space is trimmed away. -/
theorem exists_trim (s : List Char) :
    ∃ front back, s = front ++ trim s ++ back ∧ (∀ c ∈ front, isBlank c = true) ∧
      ∀ c ∈ back, isBlank c = true := by
  obtain ⟨back, hend, hback⟩ := exists_trimEnd (trimStart s)
  refine ⟨s.takeWhile isBlank, back, ?_, fun c hc => List.mem_takeWhile_imp hc, hback⟩
  rw [List.append_assoc, trim, ← hend, trimStart, List.takeWhile_append_dropWhile]

theorem trim_eq_nil_iff : trim s = [] ↔ ∀ c ∈ s, isBlank c = true := by
  constructor
  · intro h
    obtain ⟨front, back, hs, hfront, hback⟩ := exists_trim s
    rw [hs, h, List.append_nil, List.forall_mem_append]
    exact ⟨hfront, hback⟩
  · intro h
    rw [trim, trimStart, List.dropWhile_eq_nil_iff.2 h]
    rfl

/-- Trimming leaves all characters that are not blank. -/
theorem count_trim {c : Char} (hc : isBlank c = false) (s : List Char) : (trim s).count c = s.count c := by
  obtain ⟨front, back, hs, hfront, hback⟩ := exists_trim s
  have hnone : ∀ t : List Char, (∀ d ∈ t, isBlank d = true) → t.count c = 0 := by
    intro t ht
    refine List.count_eq_zero_of_not_mem fun hmem => ?_
    rw [ht c hmem] at hc
    contradiction
  have hcount := congrArg (List.count c) hs
  rw [List.count_append, List.count_append, hnone front hfront, hnone back hback] at hcount
  omega

theorem trim_trim (s : List Char) : trim (trim s) = trim s := by
  have hstart : trimStart (trim s) = trim s := by
    cases h : trim s with
    | nil => rfl
    | cons c t =>
        have hc := not_isBlank_head_trim h
        rw [trimStart, List.dropWhile_cons_of_neg (by simp [hc])]
  rw [trim, hstart, trimEnd_trim]

/-- Behind a trimmed text only white space at the end is trimmed away. -/
theorem trim_append (hs : trim s = s) (hne : s ≠ []) (t : List Char) : trim (s ++ t) = s ++ trimEnd t := by
  have hstart : trimStart (s ++ t) = s ++ t := by
    obtain ⟨c, rest, rfl⟩ := List.exists_cons_of_ne_nil hne
    have hc := not_isBlank_head_trim hs
    rw [trimStart, List.cons_append, List.dropWhile_cons_of_neg (by simp [hc])]
  have hend : trimEnd s = s := by
    rw [← hs, trimEnd_trim]
  rw [trim, hstart]
  rw [trimEnd] at hend ⊢
  rw [trimEnd, List.reverse_append, List.dropWhile_append]
  -- the end of the text in front is reached only where the rest is blank
  cases hblank : t.reverse.dropWhile isBlank with
  | nil => simpa using hend
  | cons c rest => simp

/-- A character that is not blank is left alone if only white space stands around it. -/
theorem trim_eq_singleton_iff {c : Char} (hc : isBlank c = false) :
    trim s = [c] ↔ (∀ d ∈ s, d = c ∨ isBlank d = true) ∧ s.count c = 1 := by
  constructor
  · intro h
    obtain ⟨front, back, hs, hfront, hback⟩ := exists_trim s
    refine ⟨?_, ?_⟩
    · rw [hs, h]
      intro d hd
      rcases List.mem_append.1 hd with hd | hd
      · rcases List.mem_append.1 hd with hd | hd
        · exact .inr (hfront d hd)
        · exact .inl (List.mem_singleton.1 hd)
      · exact .inr (hback d hd)
    · rw [← count_trim hc, h, List.count_singleton_self]
  · rintro ⟨hchars, hone⟩
    rw [← count_trim hc] at hone
    cases htrim : trim s with
    | nil => simp [htrim] at hone
    | cons d rest =>
        have hmem : ∀ e ∈ d :: rest, e = c ∨ isBlank e = true := fun e he =>
          hchars e ((trim_isInfix s).subset (htrim ▸ he))
        obtain rfl : d = c := by
          refine (hmem d List.mem_cons_self).resolve_right ?_
          simp [not_isBlank_head_trim htrim]
        rw [htrim, List.count_cons_self] at hone
        have hnone : d ∉ rest := by
          rw [← List.count_pos_iff]
          omega
        have hblank : ∀ e ∈ rest, isBlank e = true := by
          intro e he
          refine (hmem e (List.mem_cons_of_mem _ he)).resolve_left ?_
          rintro rfl
          exact hnone he
        -- what is left behind the character would have been trimmed away
        have hsingle : trim [d] = [d] := by
          simp [trim, trimStart, trimEnd, hc]
        have hend := trim_append hsingle (List.cons_ne_nil d []) rest
        rw [List.singleton_append, ← htrim, trim_trim, htrim, trimEnd_eq_nil_iff.2 hblank] at hend
        exact hend

theorem not_all_isBlank_trim (h : trim s ≠ []) : (trim s).all isBlank = false := by
  obtain ⟨c, t, ht⟩ := List.exists_cons_of_ne_nil h
  simp [ht, not_isBlank_head_trim ht]

end Text

/-! ## Words -/

/-- A word as it stands between commas: not blank, without white space around it and without a comma. -/
structure IsWord (s : String) : Prop where
  not_blank : isBlankText s = false
  trimmed : Text.trim s.toList = s.toList
  no_comma : ',' ∉ s.toList

instance (s : String) : Decidable (IsWord s) :=
  decidable_of_iff (isBlankText s = false ∧ Text.trim s.toList = s.toList ∧ ',' ∉ s.toList)
    ⟨fun h => ⟨h.1, h.2.1, h.2.2⟩, fun h => ⟨h.not_blank, h.trimmed, h.no_comma⟩⟩

variable {s text : String}

theorem mem_commaWords_iff :
    s ∈ commaWords text ↔
      ∃ field ∈ Text.fields ',' text.toList, Text.trim field ≠ [] ∧ s.toList = Text.trim field := by
  simp only [commaWords, List.mem_map, List.mem_filter, Bool.not_eq_true', List.isEmpty_eq_false_iff]
  constructor
  · rintro ⟨_, ⟨⟨field, hfield, rfl⟩, hne⟩, rfl⟩
    exact ⟨field, hfield, hne, String.toList_ofList⟩
  · rintro ⟨field, hfield, hne, hs⟩
    exact ⟨_, ⟨⟨field, hfield, rfl⟩, hne⟩, by rw [← hs, String.ofList_toList]⟩

/-- A word is a part of the text that it is read from. -/
theorem infix_of_mem_commaWords (h : s ∈ commaWords text) : s.toList <:+: text.toList := by
  obtain ⟨field, hfield, -, hs⟩ := mem_commaWords_iff.1 h
  rw [hs]
  exact (Text.trim_isInfix field).trans (Text.infix_of_mem_fields hfield)

theorem isWord_of_mem_commaWords (h : s ∈ commaWords text) : IsWord s := by
  obtain ⟨field, hfield, hne, hs⟩ := mem_commaWords_iff.1 h
  refine ⟨?_, ?_, fun hcomma => ?_⟩
  · rw [isBlankText, hs, Text.not_all_isBlank_trim hne]
  · rw [hs, Text.trim_trim]
  · rw [hs] at hcomma
    exact Text.not_mem_of_mem_fields hfield ((Text.trim_isInfix field).subset hcomma)

/-- A text is without words if it holds nothing but commas and white space. -/
theorem commaWords_eq_nil_iff :
    commaWords text = [] ↔ ∀ c ∈ text.toList, c = ',' ∨ Text.isBlank c = true := by
  have hwords : commaWords text = [] ↔
      ∀ field ∈ Text.fields ',' text.toList, ∀ c ∈ field, Text.isBlank c = true := by
    simp [commaWords, List.filter_eq_nil_iff, Text.trim_eq_nil_iff]
  rw [hwords]
  exact Text.forall_mem_fields_iff

/-- A comma divides the words of a text. -/
theorem commaWords_append_comma (a b : String) :
    commaWords (a ++ "," ++ b) = commaWords a ++ commaWords b := by
  have htext : (a ++ "," ++ b).toList = a.toList ++ ',' :: b.toList := by simp
  rw [commaWords, htext, Text.fields_append, List.map_append, List.filter_append, List.map_append]
  rfl

/-- A text without a comma has one word at most. -/
theorem length_commaWords_le (h : ',' ∉ text.toList) : (commaWords text).length ≤ 1 := by
  rw [commaWords, Text.fields_of_not_mem h, List.map_singleton, List.length_map]
  exact List.length_filter_le _ _

end LayeredConfig
