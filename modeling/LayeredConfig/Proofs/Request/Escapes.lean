import LayeredConfig.Proofs.Text.Pieces
import LayeredConfig.Request
import Mathlib.Data.List.Forall2
import Mathlib.Data.List.Infix

/-!
# Percent escapes

A text can lead out of a directory by two points, a backslash or NUL, each of them written as it is or as
a percent escape.  The escapes are decoded one kind after another in the lowered text; this gives what
one reading in any letter case gives, since no escape overlaps another one and nothing that is decoded
takes part in a further escape.

* `unescape` — one reading in any letter case.
* `decodeSeparators_eq` — decoding one kind after another is no different.
* `isInfix_unescape_iff` — what is read somewhere is spelled somewhere.
* `isUnsafe_eq_false_iff` — a text is safe where neither itself nor its reading leads out.
-/

namespace LayeredConfig

namespace Request

/-- What an escape of two digits stands for; its last digit may be in any letter case. -/
def escape? (high low : Char) : Option Char :=
  if high = '2' ∧ low.toLower = 'e' then some '.'
  else if high = '2' ∧ low.toLower = 'f' then some '/'
  else if high = '5' ∧ low.toLower = 'c' then some '\\'
  else if high = '0' ∧ low = '0' then some '\x00'
  else none

/-- A text read once from left to right, with its escapes decoded. -/
def unescape : List Char → List Char
  | '%' :: a :: b :: s =>
    match escape? a b with
    | some c => c :: unescape s
    | none => '%' :: unescape (a :: b :: s)
  | c :: s => c :: unescape s
  | [] => []

/-- A text that cannot lead out of a directory as it stands. -/
structure Confined (s : List Char) : Prop where
  no_parent : ¬ ['.', '.'] <:+: s
  no_backslash : '\\' ∉ s
  no_nul : '\x00' ∉ s

/-- A text that cannot lead out of a directory, neither as it stands nor when its escapes are decoded. -/
structure Harmless (s : List Char) : Prop where
  plain : Confined s
  decoded : Confined (unescape s)

/-! ## Reading a text once -/

variable {s t w : List Char} {a b c : Char}

theorem unescape_cons_of_ne (h : c ≠ '%') (s : List Char) : unescape (c :: s) = c :: unescape s := by
  rw [unescape]
  rintro _ _ _ rfl
  contradiction

theorem unescape_escape (h : escape? a b = some c) (s : List Char) :
    unescape ('%' :: a :: b :: s) = c :: unescape s := by
  rw [unescape, h]

theorem unescape_percent (h : ∀ a b t, s = a :: b :: t → escape? a b = none) :
    unescape ('%' :: s) = '%' :: unescape s := by
  match s with
  | [] => rfl
  | [_] => rfl
  | a :: b :: t => rw [unescape, h a b t rfl]

theorem unescape_of_not_mem (h : '%' ∉ s) : unescape s = s := by
  induction s with
  | nil => rfl
  | cons c s ih =>
      rw [List.mem_cons, not_or] at h
      rw [unescape_cons_of_ne (Ne.symm h.1), ih h.2]

/-! ## Decoding one kind of escape after another -/

variable {high low out : Char}

theorem decodeEscape_cons_of_ne (h : c ≠ '%') (s : List Char) :
    decodeEscape high low out (c :: s) = c :: decodeEscape high low out s := by
  rw [decodeEscape]
  rintro _ _ _ rfl
  contradiction

theorem decodeEscape_self (high low out : Char) (s : List Char) :
    decodeEscape high low out ('%' :: high :: low :: s) = out :: decodeEscape high low out s := by
  rw [decodeEscape, if_pos (by simp)]

theorem decodeEscape_percent (h : ¬ [high, low] <+: s) :
    decodeEscape high low out ('%' :: s) = '%' :: decodeEscape high low out s := by
  match s with
  | [] => rfl
  | [_] => rfl
  | a :: b :: t =>
      rw [decodeEscape, if_neg]
      intro hab
      obtain ⟨rfl, rfl⟩ : a = high ∧ b = low := by simpa using hab
      exact h ⟨t, rfl⟩

/-- What stands at the start of a decoded text, and is no escape, stood there before. -/
theorem prefix_of_prefix_decodeEscape (h : w <+: decodeEscape high low out s) (hout : out ∉ w)
    (hpercent : '%' ∉ w) : w <+: s := by
  induction w generalizing s with
  | nil => exact List.nil_prefix
  | cons c w ih =>
      rw [List.mem_cons, not_or] at hout hpercent
      match s with
      | [] => simp [decodeEscape] at h
      | d :: s =>
          by_cases hd : d = '%'
          · subst hd
            by_cases hescape : [high, low] <+: s
            · obtain ⟨t, rfl⟩ := hescape
              rw [List.cons_append, List.cons_append, decodeEscape_self, List.cons_prefix_cons] at h
              exact absurd h.1.symm hout.1
            · rw [decodeEscape_percent hescape, List.cons_prefix_cons] at h
              exact absurd h.1.symm hpercent.1
          · rw [decodeEscape_cons_of_ne hd, List.cons_prefix_cons] at h
            obtain ⟨rfl, h⟩ := h
            exact (List.prefix_cons_inj c).2 (ih h hout.2 hpercent.2)

/-- The four kinds of escapes, decoded one after another. -/
def decodeAll (s : List Char) : List Char :=
  decodeEscape '0' '0' '\x00'
    (decodeEscape '5' 'c' '\\' (decodeEscape '2' 'f' '/' (decodeEscape '2' 'e' '.' s)))

theorem decodeAll_cons_of_ne (h : c ≠ '%') (s : List Char) : decodeAll (c :: s) = c :: decodeAll s := by
  simp only [decodeAll, decodeEscape_cons_of_ne h]

/-- A percent sign that starts no escape is kept. -/
theorem decodeAll_percent (he : ¬ ['2', 'e'] <+: s) (hf : ¬ ['2', 'f'] <+: s) (hc : ¬ ['5', 'c'] <+: s)
    (h0 : ¬ ['0', '0'] <+: s) : decodeAll ('%' :: s) = '%' :: decodeAll s := by
  have hf' : ¬ ['2', 'f'] <+: decodeEscape '2' 'e' '.' s := fun h =>
    hf (prefix_of_prefix_decodeEscape h (by decide) (by decide))
  have hc' : ¬ ['5', 'c'] <+: decodeEscape '2' 'f' '/' (decodeEscape '2' 'e' '.' s) := fun h =>
    hc (prefix_of_prefix_decodeEscape (prefix_of_prefix_decodeEscape h (by decide) (by decide))
      (by decide) (by decide))
  have h0' : ¬ ['0', '0'] <+:
      decodeEscape '5' 'c' '\\' (decodeEscape '2' 'f' '/' (decodeEscape '2' 'e' '.' s)) := fun h =>
    h0 (prefix_of_prefix_decodeEscape (prefix_of_prefix_decodeEscape
      (prefix_of_prefix_decodeEscape h (by decide) (by decide)) (by decide) (by decide))
      (by decide) (by decide))
  rw [decodeAll, decodeEscape_percent he, decodeEscape_percent hf', decodeEscape_percent hc',
    decodeEscape_percent h0', decodeAll]

/-- The escapes of lowered texts. -/
theorem escape?_eq_some (h : escape? a b = some c) :
    a = '2' ∧ b.toLower = 'e' ∧ c = '.' ∨ a = '2' ∧ b.toLower = 'f' ∧ c = '/' ∨
      a = '5' ∧ b.toLower = 'c' ∧ c = '\\' ∨ a = '0' ∧ b.toLower = '0' ∧ c = '\x00' := by
  rw [escape?] at h
  split_ifs at h with hpoint hslash hback hnul
  · exact .inl ⟨hpoint.1, hpoint.2, (Option.some.inj h).symm⟩
  · exact .inr (.inl ⟨hslash.1, hslash.2, (Option.some.inj h).symm⟩)
  · exact .inr (.inr (.inl ⟨hback.1, hback.2, (Option.some.inj h).symm⟩))
  · obtain ⟨rfl, rfl⟩ := hnul
    exact .inr (.inr (.inr ⟨rfl, by decide, (Option.some.inj h).symm⟩))

/-! ## Letter case -/

/-- Only a letter is changed by lowering. -/
theorem eq_of_toLower_eq (h : c.toLower = a) (ha : a.toNat < 97) : c = a := by
  delta Char.toLower at h
  split at h
  · next hupper =>
      have hlow : 65 ≤ c.toNat := UInt32.le_iff_toNat_le.1 hupper.1
      have hhigh : c.toNat ≤ 90 := UInt32.le_iff_toNat_le.1 hupper.2
      have hsum : a.toNat = (c.val + 32).toNat := by rw [← h]; rfl
      have hval : c.val.toNat = c.toNat := rfl
      have hlit : (32 : UInt32).toNat = 32 := rfl
      rw [UInt32.toNat_add, hval, hlit] at hsum
      omega
  · exact h

theorem toLower_eq_iff (ha : a.toNat < 65) : c.toLower = a ↔ c = a := by
  refine ⟨fun h => eq_of_toLower_eq h (by omega), ?_⟩
  rintro rfl
  delta Char.toLower
  rw [dif_neg]
  rintro ⟨hlow, -⟩
  have : 65 ≤ c.toNat := UInt32.le_iff_toNat_le.1 hlow
  omega

/-- A percent sign before no escape is before none in the lowered text. -/
theorem not_prefix_lower {d : Char} (h : ∀ a b t, s = a :: b :: t → escape? a b = none)
    (ha : a.toNat < 65) (hab : ∀ b', b'.toLower = b → escape? a b' = some d) :
    ¬ [a, b] <+: Text.lower s := by
  rintro ⟨t, ht⟩
  obtain ⟨a', s', rfl, ha', hs'⟩ := List.map_eq_cons_iff.1 ht.symm
  obtain ⟨b', s'', rfl, hb', -⟩ := List.map_eq_cons_iff.1 hs'
  obtain rfl := (toLower_eq_iff ha).1 ha'
  have := h a' b' s'' rfl
  rw [hab b' hb'] at this
  contradiction

theorem decodeAll_lower_percent (h : ∀ a b t, s = a :: b :: t → escape? a b = none) :
    decodeAll (Text.lower ('%' :: s)) = '%' :: decodeAll (Text.lower s) := by
  refine decodeAll_percent (not_prefix_lower h (by decide) (d := '.') fun b' hb => ?_)
    (not_prefix_lower h (by decide) (d := '/') fun b' hb => ?_)
    (not_prefix_lower h (by decide) (d := '\\') fun b' hb => ?_)
    (not_prefix_lower h (by decide) (d := '\x00') fun b' hb => ?_)
  · simp [escape?, hb]
  · simp [escape?, hb]
  · simp [escape?, hb]
  · obtain rfl := (toLower_eq_iff (by decide)).1 hb
    decide

/-- An escape is decoded when its kind is, and not touched before. -/
theorem decodeAll_lower_escape (h : escape? a b = some c) (s : List Char) :
    decodeAll (Text.lower ('%' :: a :: b :: s)) = c :: decodeAll (Text.lower s) := by
  have hlower : Text.lower ('%' :: a :: b :: s) = '%' :: a.toLower :: b.toLower :: Text.lower s := rfl
  rw [hlower]
  rcases escape?_eq_some h with ⟨rfl, hb, rfl⟩ | ⟨rfl, hb, rfl⟩ | ⟨rfl, hb, rfl⟩ | ⟨rfl, hb, rfl⟩
  all_goals
    rw [hb, (toLower_eq_iff (by decide)).2 rfl]
    simp [decodeAll, decodeEscape_self, decodeEscape_cons_of_ne, decodeEscape_percent]

/-- Decoding one kind after another in the lowered text is one reading in any letter case. -/
theorem decodeAll_lower (s : List Char) : decodeAll (Text.lower s) = Text.lower (unescape s) := by
  fun_induction unescape s with
  | case1 a b s c hescape ih =>
      have hc : c.toLower = c := by
        rcases escape?_eq_some hescape with ⟨-, -, rfl⟩ | ⟨-, -, rfl⟩ | ⟨-, -, rfl⟩ | ⟨-, -, rfl⟩ <;> decide
      rw [decodeAll_lower_escape hescape, ih, Text.lower, Text.lower, List.map_cons, hc]
  | case2 a b s hescape ih =>
      rw [decodeAll_lower_percent, ih]
      · rfl
      · rintro _ _ _ ⟨⟩
        exact hescape
  | case3 c s hplain ih =>
      by_cases hc : c = '%'
      · subst hc
        rw [decodeAll_lower_percent, ih]
        · rfl
        · exact fun a b t hs => (hplain a b t rfl hs).elim
      · have hlower : c.toLower ≠ '%' := fun h => hc (eq_of_toLower_eq h (by decide))
        have hcons : Text.lower (c :: s) = c.toLower :: Text.lower s := rfl
        rw [hcons, decodeAll_cons_of_ne hlower, ih]
        rfl
  | case4 => rfl

theorem decodeSeparators_eq (s : List Char) :
    decodeSeparators s = if '%' ∈ s then Text.lower (unescape s) else s := by
  rw [decodeSeparators, ← decodeAll_lower, decodeAll]
  by_cases h : '%' ∈ s
  · rw [if_pos h, if_pos (by simpa using h)]
  · rw [if_neg h, if_neg (by simpa using h)]

/-! ## What a text spells -/

/-- The ways of writing a character. -/
inductive Spells : List Char → Char → Prop where
  | plain (c : Char) : Spells [c] c
  | escape {a b c : Char} (h : escape? a b = some c) : Spells ['%', a, b] c

/-- Some characters are written somewhere in a text, one behind the other. -/
def Spelled (w s : List Char) : Prop :=
  ∃ parts : List (List Char), List.Forall₂ Spells parts w ∧ parts.flatten <:+: s

/-- Characters that can lead out of a directory. -/
def IsUnsafeChar (c : Char) : Prop := c = '.' ∨ c = '\\' ∨ c = '\x00'

theorem Spelled.mono (h : Spelled w s) (hst : s <:+: t) : Spelled w t := by
  obtain ⟨parts, hparts, hinfix⟩ := h
  exact ⟨parts, hparts, hinfix.trans hst⟩

theorem spelled_of_isInfix (h : w <:+: s) : Spelled w s := by
  refine ⟨w.map fun c => [c], ?_, ?_⟩
  · exact List.forall₂_map_left_iff.2 (List.forall₂_same.2 fun c _ => .plain c)
  · rwa [← List.flatMap_def, List.flatMap_singleton']

/-- A text that is not empty starts with the way its first character is written. -/
theorem exists_spells (h : s ≠ []) :
    ∃ part c t, s = part ++ t ∧ unescape s = c :: unescape t ∧ Spells part c ∧ part ≠ [] := by
  match s with
  | c :: t =>
      by_cases hescape : c = '%' ∧ ∃ a b d u, t = a :: b :: u ∧ escape? a b = some d
      · obtain ⟨rfl, a, b, d, u, rfl, hd⟩ := hescape
        exact ⟨['%', a, b], d, u, rfl, unescape_escape hd u, .escape hd, by simp⟩
      · refine ⟨[c], c, t, rfl, ?_, .plain c, by simp⟩
        by_cases hc : c = '%'
        · subst hc
          refine unescape_percent fun a b u hu => ?_
          by_contra hsome
          obtain ⟨d, hd⟩ := Option.ne_none_iff_exists'.1 hsome
          exact hescape ⟨rfl, a, b, d, u, hu, hd⟩
        · exact unescape_cons_of_ne hc t

theorem exists_parts_of_prefix (h : w <+: unescape s) :
    ∃ parts : List (List Char), List.Forall₂ Spells parts w ∧ parts.flatten <+: s := by
  induction w generalizing s with
  | nil => exact ⟨[], .nil, List.nil_prefix⟩
  | cons d w ih =>
      have hs : s ≠ [] := by
        rintro rfl
        simp [unescape] at h
      obtain ⟨part, c, t, rfl, ht, hpart, -⟩ := exists_spells hs
      rw [ht, List.cons_prefix_cons] at h
      obtain ⟨rfl, h⟩ := h
      obtain ⟨parts, hparts, hprefix⟩ := ih h
      exact ⟨part :: parts, .cons hpart hparts, (List.prefix_append_right_inj part).2 hprefix⟩

/-- What is read somewhere is spelled somewhere. -/
theorem spelled_of_isInfix_unescape (h : w <:+: unescape s) : Spelled w s := by
  induction hn : s.length using Nat.strong_induction_on generalizing s with
  | _ n ih =>
      by_cases hs : s = []
      · subst hs
        exact spelled_of_isInfix h
      · obtain ⟨part, c, t, rfl, ht, -, hne⟩ := exists_spells hs
        rw [ht, List.infix_cons_iff] at h
        rcases h with h | h
        · rw [← ht] at h
          obtain ⟨parts, hparts, hprefix⟩ := exists_parts_of_prefix h
          exact ⟨parts, hparts, hprefix.isInfix⟩
        · have hlt : t.length < n := by
            rw [← hn, List.length_append]
            have := List.length_pos_iff.2 hne
            omega
          exact (ih t.length hlt h rfl).mono (List.suffix_append part t).isInfix

/-- A character that stands at neither place behind the percent sign of an escape divides a text. -/
def Divides (c : Char) : Prop := ∀ d, escape? c d = none ∧ escape? d c = none

theorem unescape_append (h : Divides c) (s t : List Char) :
    unescape (s ++ c :: t) = unescape s ++ unescape (c :: t) := by
  fun_induction unescape s with
  | case1 a b s d hescape ih => rw [List.cons_append, List.cons_append, List.cons_append,
      unescape_escape hescape, ih, List.cons_append]
  | case2 a b s hescape ih =>
      rw [List.cons_append, unescape_percent, ih, List.cons_append]
      rintro _ _ _ ⟨⟩
      exact hescape
  | case3 d s hplain ih =>
      rw [List.cons_append, List.cons_append, ← ih]
      by_cases hd : d = '%'
      · subst hd
        refine unescape_percent fun a b u hu => ?_
        cases s with
        | nil =>
            obtain ⟨rfl, -⟩ := List.cons.inj hu
            exact (h b).1
        | cons p s =>
            cases s with
            | nil =>
                obtain ⟨rfl, -⟩ := List.cons.inj (List.cons.inj hu).2
                exact (h a).2
            | cons q v => exact (hplain p q v rfl rfl).elim
      · exact unescape_cons_of_ne hd _
  | case4 => rfl

theorem IsUnsafeChar.divides (h : IsUnsafeChar c) : Divides c := by
  rcases h with rfl | rfl | rfl <;> intro d <;> simp [escape?]

theorem divides_percent : Divides '%' := by
  intro d
  simp [escape?]

theorem Spells.unescape_append {part : List Char} (h : Spells part c) (hc : IsUnsafeChar c)
    (t : List Char) : unescape (part ++ t) = c :: unescape t := by
  cases h with
  | plain =>
      refine unescape_cons_of_ne ?_ t
      rcases hc with rfl | rfl | rfl <;> decide
  | escape h => exact unescape_escape h t

theorem Spells.exists_divides {part : List Char} (h : Spells part c) (hc : IsUnsafeChar c) :
    ∃ d rest, part = d :: rest ∧ Divides d := by
  cases h with
  | plain => exact ⟨c, [], rfl, hc.divides⟩
  | escape h => exact ⟨'%', _, rfl, divides_percent⟩

theorem unescape_flatten {parts : List (List Char)} (h : List.Forall₂ Spells parts w)
    (hw : ∀ c ∈ w, IsUnsafeChar c) (t : List Char) :
    unescape (parts.flatten ++ t) = w ++ unescape t := by
  induction h with
  | nil => rfl
  | cons hpart hparts ih =>
      rw [List.forall_mem_cons] at hw
      rw [List.flatten_cons, List.append_assoc, hpart.unescape_append hw.1, ih hw.2, List.cons_append]

/-- What is spelled somewhere is read there. -/
theorem infix_unescape_of_spelled (h : Spelled w s) (hw : ∀ c ∈ w, IsUnsafeChar c) :
    w <:+: unescape s := by
  obtain ⟨parts, hparts, a, b, rfl⟩ := h
  cases hparts with
  | nil => exact List.nil_infix
  | @cons part c parts w hpart hparts =>
      have hflatten := unescape_flatten (.cons hpart hparts) hw b
      obtain ⟨d, rest, rfl, hd⟩ := hpart.exists_divides (List.forall_mem_cons.1 hw).1
      rw [List.append_assoc]
      rw [List.flatten_cons, List.cons_append, List.cons_append] at hflatten ⊢
      rw [unescape_append hd, hflatten]
      exact ⟨unescape a, unescape b, by rw [List.append_assoc]⟩

theorem isInfix_unescape_iff (hw : ∀ c ∈ w, IsUnsafeChar c) : w <:+: unescape s ↔ Spelled w s :=
  ⟨spelled_of_isInfix_unescape, fun h => infix_unescape_of_spelled h hw⟩

/-! ## Harmless texts -/

theorem confined_unescape_iff :
    Confined (unescape s) ↔ ¬ Spelled ['.', '.'] s ∧ ¬ Spelled ['\\'] s ∧ ¬ Spelled ['\x00'] s := by
  rw [← isInfix_unescape_iff (w := ['.', '.']) (by simp [IsUnsafeChar]),
    ← isInfix_unescape_iff (w := ['\\']) (by simp [IsUnsafeChar]),
    ← isInfix_unescape_iff (w := ['\x00']) (by simp [IsUnsafeChar]),
    List.singleton_infix_iff, List.singleton_infix_iff]
  exact ⟨fun h => ⟨h.no_parent, h.no_backslash, h.no_nul⟩, fun h => ⟨h.1, h.2.1, h.2.2⟩⟩

/-- What a text holds as it stands is still there when its escapes are decoded. -/
theorem harmless_iff : Harmless s ↔ Confined (unescape s) := by
  refine ⟨Harmless.decoded, fun h => ⟨?_, h⟩⟩
  obtain ⟨hpoints, hback, hnul⟩ := confined_unescape_iff.1 h
  exact ⟨fun h => hpoints (spelled_of_isInfix h),
    fun h => hback (spelled_of_isInfix ((List.singleton_infix_iff _ _).2 h)),
    fun h => hnul (spelled_of_isInfix ((List.singleton_infix_iff _ _).2 h))⟩

theorem Harmless.of_isInfix (h : Harmless s) (hts : t <:+: s) : Harmless t := by
  rw [harmless_iff, confined_unescape_iff] at h ⊢
  exact ⟨fun ht => h.1 (ht.mono hts), fun ht => h.2.1 (ht.mono hts), fun ht => h.2.2 (ht.mono hts)⟩

theorem confined_lower_iff : Confined (Text.lower s) ↔ Confined s := by
  have hchar (a : Char) (ha : a.toNat < 97) (ha' : a.toLower = a) : a ∈ Text.lower s ↔ a ∈ s := by
    rw [Text.lower, List.mem_map]
    constructor
    · rintro ⟨c, hc, hca⟩
      rwa [← eq_of_toLower_eq hca ha]
    · exact fun hmem => ⟨a, hmem, ha'⟩
  have hpoints : ['.', '.'] <:+: Text.lower s ↔ ['.', '.'] <:+: s := by
    rw [Text.lower, List.infix_map_iff]
    constructor
    · rintro ⟨l, hl, heq⟩
      obtain ⟨c, l', rfl, hc, hl'⟩ := List.map_eq_cons_iff.1 heq.symm
      obtain ⟨d, l'', rfl, hd, hl''⟩ := List.map_eq_cons_iff.1 hl'
      obtain rfl := List.map_eq_nil_iff.1 hl''
      rwa [eq_of_toLower_eq hc (by decide), eq_of_toLower_eq hd (by decide)] at hl
    · exact fun h => ⟨_, h, by decide⟩
  constructor
  · rintro ⟨hp, hb, hn⟩
    exact ⟨hpoints.not.1 hp, (hchar _ (by decide) (by decide)).not.1 hb,
      (hchar _ (by decide) (by decide)).not.1 hn⟩
  · rintro ⟨hp, hb, hn⟩
    exact ⟨hpoints.not.2 hp, (hchar _ (by decide) (by decide)).not.2 hb,
      (hchar _ (by decide) (by decide)).not.2 hn⟩

/-- A text is found safe exactly where it is harmless. -/
theorem isUnsafe_eq_false_iff : isUnsafe s = false ↔ Harmless s := by
  have hdecoded : isUnsafe s = false ↔ Confined (decodeSeparators s) := by
    rw [isUnsafe, Bool.or_eq_false_iff, Bool.or_eq_false_iff, ← Bool.not_eq_true,
      Text.contains_eq_true_iff]
    simp only [List.contains_eq_mem, decide_eq_false_iff_not]
    exact ⟨fun h => ⟨h.1.1, h.1.2, h.2⟩, fun h => ⟨⟨h.no_parent, h.no_backslash⟩, h.no_nul⟩⟩
  have hread : Confined (decodeSeparators s) ↔ Confined (unescape s) := by
    rw [decodeSeparators_eq]
    split
    · exact confined_lower_iff
    · next h => rw [unescape_of_not_mem h]
  rw [hdecoded, hread, harmless_iff]

end Request

end LayeredConfig
