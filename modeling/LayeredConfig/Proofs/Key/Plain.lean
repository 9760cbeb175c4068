import LayeredConfig.Proofs.Key.Spelling
import Mathlib.Data.List.Induction

/-!
# Plain keys

An index may be written with leading zeros.  A text in which none is written that way is *plain*, and
a plain tail is the one text of its segments that `text` prints.

* `lead` — how the text of some segments starts behind others.
* `segments?` — the segments of a key, if it can be read.
* `spells_continued` — what is printed for segments spells them.
* `Spells.unique`, `Spells.of_continued_append` — a tail spells one list of segments, and goes on as
  the segments printed in front of it do.
* `Spells.eq_of_suffix` — the end of a text that spells some segments is determined by them.
* `Spells.eq_continued` — a plain tail is what is printed for its segments.
-/

namespace LayeredConfig.Key

/-- Whether an index is written with a leading zero somewhere in a text. -/
def HasLeadingZero (s : List Char) : Prop := ∃ d, Text.isDigit d = true ∧ ['[', '0', d] <:+: s

theorem hasLeadingZero_nil : ¬ HasLeadingZero [] := by
  rintro ⟨d, -, hinfix⟩
  simp at hinfix

theorem hasLeadingZero_cons (c : Char) (s : List Char) :
    HasLeadingZero (c :: s) ↔
      (c = '[' ∧ s.head? = some '0' ∧ s[1]?.any Text.isDigit = true) ∨ HasLeadingZero s := by
  constructor
  · rintro ⟨d, hd, hinfix⟩
    rcases List.infix_cons_iff.1 hinfix with ⟨rest, hprefix⟩ | hinfix
    · obtain ⟨rfl, rfl⟩ := List.cons.inj hprefix
      exact .inl ⟨rfl, rfl, hd⟩
    · exact .inr ⟨d, hd, hinfix⟩
  · rintro (⟨rfl, hzero, hdigit⟩ | ⟨d, hd, hinfix⟩)
    · rcases s with _ | ⟨z, _ | ⟨e, rest⟩⟩
      · simp at hdigit
      · simp at hdigit
      · obtain rfl : z = '0' := by simpa using hzero
        exact ⟨e, hdigit, [], rest, rfl⟩
    · exact ⟨d, hd, List.infix_cons_iff.2 (.inr hinfix)⟩

instance decidableHasLeadingZero : (s : List Char) → Decidable (HasLeadingZero s)
  | [] => isFalse hasLeadingZero_nil
  | c :: s =>
    have := decidableHasLeadingZero s
    decidable_of_iff _ (hasLeadingZero_cons c s).symm

/-- A text in which no index has a leading zero. -/
def Plain (s : List Char) : Prop := ¬ HasLeadingZero s

instance : DecidablePred Plain := fun s => inferInstanceAs (Decidable (¬ HasLeadingZero s))

theorem Plain.suffix {s t : List Char} (h : Plain t) (hst : s <:+ t) : Plain s :=
  fun ⟨d, hd, hinfix⟩ => h ⟨d, hd, hinfix.trans hst.isInfix⟩

theorem Plain.cons_point {s : List Char} (h : Plain s) : Plain ('.' :: s) := by
  rintro ⟨d, hd, hinfix⟩
  rcases List.infix_cons_iff.1 hinfix with hprefix | hinfix
  · simp at hprefix
  · exact h ⟨d, hd, hinfix⟩

/-! ## Printed digits -/

theorem isDigit_of_mem_toDigits {i : Nat} {c : Char} (h : c ∈ Nat.toDigits 10 i) :
    Text.isDigit c = true :=
  Nat.isDigit_of_mem_toDigits (by decide) (by decide) h

theorem indexValue_toDigits (i : Nat) : indexValue (Nat.toDigits 10 i) = i :=
  Nat.ofDigitChars_toDigits (by decide) (by decide)

theorem isIndex_toDigits {i : Nat} (h : i ≤ maxIndex) : IsIndex (Nat.toDigits 10 i) :=
  ⟨Nat.toDigits_ne_nil, fun _ => isDigit_of_mem_toDigits, by rwa [indexValue_toDigits]⟩

theorem indexValue_append_singleton (digits : List Char) (d : Char) :
    indexValue (digits ++ [d]) = 10 * indexValue digits + (d.toNat - '0'.toNat) := by
  simp [indexValue]

theorem isDigit_bounds {d : Char} (h : Text.isDigit d = true) : 48 ≤ d.toNat ∧ d.toNat ≤ 57 := by
  simp only [Text.isDigit, Bool.and_eq_true, decide_eq_true_eq, Char.le_def,
    UInt32.le_iff_toNat_le] at h
  exact h

theorem toDigits_digit {d : Char} (h : Text.isDigit d = true) :
    Nat.toDigits 10 (d.toNat - '0'.toNat) = [d] := by
  have hb := isDigit_bounds h
  have hlt : d.toNat - '0'.toNat < 10 := by
    show d.toNat - 48 < 10
    omega
  rw [Nat.toDigits_of_lt_base hlt]
  have hn : (d.toNat - '0'.toNat).digitChar.toNat = d.toNat := by
    rw [Nat.toNat_digitChar_of_lt_ten hlt]
    show 48 + (d.toNat - 48) = d.toNat
    omega
  rw [Char.toNat_inj.1 hn]

/-- Digits without a leading zero are the ones printed for their number. -/
theorem eq_toDigits {digits : List Char} (hne : digits ≠ [])
    (hall : ∀ c ∈ digits, Text.isDigit c = true) (hzero : ∀ d rest, digits ≠ '0' :: d :: rest) :
    digits = Nat.toDigits 10 (indexValue digits) := by
  induction digits using List.reverseRecOn with
  | nil => exact absurd rfl hne
  | append_singleton front d ih =>
      have hd : Text.isDigit d = true := hall d (by simp)
      have hlt : d.toNat - '0'.toNat < 10 := by
        have := isDigit_bounds hd
        show d.toNat - 48 < 10
        omega
      by_cases hfront : front = []
      · subst hfront
        simpa [indexValue] using (toDigits_digit hd).symm
      · have hprinted : front = Nat.toDigits 10 (indexValue front) := by
          apply ih hfront (fun c hc => hall c (by simp [hc]))
          rintro e rest rfl
          exact hzero e (rest ++ [d]) (by simp)
        -- a front of value zero would be a leading zero
        have hpos : 0 < indexValue front := by
          rcases Nat.eq_zero_or_pos (indexValue front) with h0 | h0
          · rw [h0, Nat.toDigits_zero] at hprinted
            exact absurd (by rw [hprinted]; rfl) (hzero d [])
          · exact h0
        calc front ++ [d]
            = Nat.toDigits 10 (indexValue front) ++ Nat.toDigits 10 (d.toNat - '0'.toNat) := by
              rw [← hprinted, toDigits_digit hd]
          _ = Nat.toDigits 10 (10 * indexValue front + (d.toNat - '0'.toNat)) :=
              Nat.toDigits_append_toDigits (by decide) hpos hlt
          _ = Nat.toDigits 10 (indexValue (front ++ [d])) := by
              rw [indexValue_append_singleton]

/-! ## Printed segments -/

/-- A segment that keys can hold. -/
def IsSegment : Segment → Prop
  | .name n => IsName n.toList
  | .index i => i ≤ maxIndex

instance : DecidablePred IsSegment
  | .name n => inferInstanceAs (Decidable (IsName n.toList))
  | .index i => inferInstanceAs (Decidable (i ≤ maxIndex))

@[simp] theorem continued_nil : text.continued [] = [] := rfl

@[simp] theorem continued_name (n : String) (segments : List Segment) :
    text.continued (.name n :: segments) = '.' :: (n.toList ++ text.continued segments) := rfl

@[simp] theorem continued_index (i : Nat) (segments : List Segment) :
    text.continued (.index i :: segments) =
      '[' :: (Nat.toDigits 10 i ++ ']' :: text.continued segments) := rfl

theorem continued_append (a b : List Segment) :
    text.continued (a ++ b) = text.continued a ++ text.continued b := by
  induction a with
  | nil => rfl
  | cons g a ih => cases g <;> simp [ih]

theorem spells_continued {segments : List Segment} (h : ∀ g ∈ segments, IsSegment g) :
    Spells segments (text.continued segments) := by
  induction segments with
  | nil => exact .nil
  | cons g segments ih =>
      have htail := ih fun g' hg' => h g' (List.mem_cons_of_mem g hg')
      have hg := h g List.mem_cons_self
      cases g with
      | name n => exact .name hg htail
      | index i =>
          have hspell := Spells.index (isIndex_toDigits hg) htail
          rwa [indexValue_toDigits] at hspell

theorem Spells.isSegment {segments : List Segment} {s : List Char} (h : Spells segments s) :
    ∀ g ∈ segments, IsSegment g := by
  induction h with
  | nil => simp
  | name hn _ ih => simpa using ⟨hn, ih⟩
  | index hd _ ih => simpa using ⟨hd.2.2, ih⟩

/-- The character with which the text of a segment starts behind other segments. -/
def Segment.opener : Segment → Char
  | .name _ => '.'
  | .index _ => '['

@[simp] theorem Segment.opener_name (n : String) : (Segment.name n).opener = '.' := rfl

@[simp] theorem Segment.opener_index (i : Nat) : (Segment.index i).opener = '[' := rfl

/-- Whether a segment is an index. -/
def Segment.isIndex : Segment → Bool
  | .name _ => false
  | .index _ => true

/-- The character with which the text of some segments starts behind others. -/
def lead (segments : List Segment) : Option Char := segments.head?.map Segment.opener

@[simp] theorem lead_nil : lead [] = none := rfl

@[simp] theorem lead_cons (g : Segment) (segments : List Segment) :
    lead (g :: segments) = some g.opener := rfl

theorem head?_continued (segments : List Segment) :
    (text.continued segments).head? = lead segments := by
  rcases segments with _ | ⟨n | i, segments⟩ <;> rfl

theorem Spells.head? {segments : List Segment} {s : List Char} (h : Spells segments s) :
    s.head? = lead segments := by
  cases h <;> rfl

theorem Spells.append {a b : List Segment} {s t : List Char} (ha : Spells a s) (hb : Spells b t) :
    Spells (a ++ b) (s ++ t) := by
  induction ha with
  | nil => exact hb
  | @name n segments s hn h ih =>
      rw [List.cons_append, List.cons_append, List.append_assoc]
      exact .name hn ih
  | @index digits segments s hd h ih =>
      rw [List.cons_append, List.cons_append, List.append_assoc, List.cons_append]
      exact .index hd ih

/-- A tail that starts as printed segments do spells these and more. -/
theorem Spells.of_continued_append {p segments : List Segment} {t : List Char}
    (hp : ∀ g ∈ p, IsSegment g) (ht : Detached t) (h : Spells segments (text.continued p ++ t)) :
    ∃ r, segments = p ++ r ∧ Spells r t := by
  induction p generalizing segments with
  | nil => exact ⟨segments, rfl, h⟩
  | cons g p ih =>
      have hrest := fun g' hg' => hp g' (List.mem_cons_of_mem g hg')
      -- what follows the segment starts with a separator, so both texts part the same way
      have hdetached : Detached (text.continued p ++ t) := by
        cases p with
        | nil => exact ht
        | cons g' p => cases g' <;> exact detached_cons.2 (by decide)
      cases g with
      | name n =>
          have hn : IsName n.toList := hp (.name n) List.mem_cons_self
          rw [continued_name, List.cons_append, List.append_assoc] at h
          generalize hs : '.' :: (n.toList ++ (text.continued p ++ t)) = s at h
          cases h with
          | nil => simp at hs
          | index => simp at hs
          | @name n' segments s hn' h =>
              obtain ⟨hname, rfl⟩ := hn.append_inj hn' hdetached h.detached (List.cons.inj hs).2
              obtain ⟨r, rfl, hr⟩ := ih hrest h
              exact ⟨r, by rw [String.toList_inj.1 hname]; rfl, hr⟩
      | index i =>
          rw [continued_index, List.cons_append, List.append_assoc, List.cons_append] at h
          generalize hs : '[' :: (Nat.toDigits 10 i ++ ']' :: (text.continued p ++ t)) = s at h
          cases h with
          | nil => simp at hs
          | name => simp at hs
          | @index digits segments s hd h =>
              obtain ⟨rfl, rfl⟩ := digits_append_inj (fun _ => isDigit_of_mem_toDigits) hd.2.1
                (List.cons.inj hs).2
              obtain ⟨r, rfl, hr⟩ := ih hrest h
              exact ⟨r, by rw [indexValue_toDigits]; rfl, hr⟩

theorem Spells.unique {a b : List Segment} {s : List Char} (ha : Spells a s) (hb : Spells b s) :
    a = b := by
  induction ha generalizing b with
  | nil =>
      cases hb
      rfl
  | @name n segments s hn h ih =>
      generalize ht : '.' :: (n.toList ++ s) = t at hb
      cases hb with
      | nil => simp at ht
      | @name n' segments' s' hn' h' =>
          obtain ⟨hname, rfl⟩ := hn.append_inj hn' h.detached h'.detached (List.cons.inj ht).2
          rw [String.toList_inj.1 hname, ih h']
      | index => simp at ht
  | @index digits segments s hd h ih =>
      generalize ht : '[' :: (digits ++ ']' :: s) = t at hb
      cases hb with
      | nil => simp at ht
      | name => simp at ht
      | @index digits' segments' s' hd' h' =>
          obtain ⟨rfl, rfl⟩ := digits_append_inj hd.2.1 hd'.2.1 (List.cons.inj ht).2
          rw [ih h']

theorem isNameChar_of_isDigit {c : Char} (h : Text.isDigit c = true) : isNameChar c = true := by
  simp only [isNameChar, Bool.and_eq_true, decide_eq_true_eq]
  constructor <;> rintro rfl <;> exact absurd h (by decide)

/-- A tail has one separator for each of its segments. -/
theorem Spells.countP {segments : List Segment} {s : List Char} (h : Spells segments s) :
    s.countP (fun c => !isNameChar c) = segments.length := by
  have hzero : ∀ {l : List Char}, (∀ c ∈ l, isNameChar c = true) →
      l.countP (fun c => !isNameChar c) = 0 := by
    intro l hl
    rw [List.countP_eq_zero]
    intro c hc
    simp [hl c hc]
  induction h with
  | nil => rfl
  | @name n segments s hn h ih =>
      have hpoint : isNameChar '.' = false := by decide
      rw [List.countP_cons, List.countP_append, hzero hn.2, ih]
      simp [hpoint]
  | @index digits segments s hd h ih =>
      have hopen : isNameChar '[' = false := by decide
      have hclose : isNameChar ']' = true := by decide
      have hdigits := hzero fun c hc => isNameChar_of_isDigit (hd.2.1 c hc)
      rw [List.countP_cons, List.countP_append, List.countP_cons, hdigits, ih]
      simp [hopen, hclose]

/-- The end of a text that spells some segments is determined by them. -/
theorem Spells.eq_of_suffix {segments : List Segment} {s u u' : List Char} (hu : Spells segments u)
    (hu' : Spells segments u') (h : u <:+ s) (h' : u' <:+ s) : u = u' := by
  have hlonger : ∀ {u u' : List Char}, Spells segments u → Spells segments u' → u <:+ u' →
      u = u' := by
    rintro u _ hu hu' ⟨front, rfl⟩
    have hcount := hu'.countP
    rw [List.countP_append, hu.countP] at hcount
    cases front with
    | nil => rfl
    | cons c front =>
        -- the first character would be a separator, and there is one too many
        have hc := hu'.detached c (by simp)
        rw [List.countP_cons, hc] at hcount
        simp at hcount
  rcases List.suffix_or_suffix_of_suffix h h' with hshort | hshort
  · exact hlonger hu hu' hshort
  · exact (hlonger hu' hu hshort).symm

/-- A plain tail is what is printed for its segments. -/
theorem Spells.eq_continued {segments : List Segment} {s : List Char} (h : Spells segments s)
    (hplain : Plain s) : s = text.continued segments := by
  induction h with
  | nil => rfl
  | @name n segments s hn h ih =>
      have hs : s <:+ '.' :: (n.toList ++ s) := ⟨'.' :: n.toList, by simp⟩
      rw [continued_name, ← ih (hplain.suffix hs)]
  | @index digits segments s hd h ih =>
      have hs : s <:+ '[' :: (digits ++ ']' :: s) := ⟨'[' :: (digits ++ [']']), by simp⟩
      -- a leading zero would stand right behind the bracket
      have hdigits : digits = Nat.toDigits 10 (indexValue digits) := by
        apply eq_toDigits hd.1 hd.2.1
        rintro d rest rfl
        exact hplain ⟨d, hd.2.1 d (by simp), [], rest ++ ']' :: s, by simp⟩
      rw [continued_index, ← ih (hplain.suffix hs), ← hdigits]

/-! ## Segments of a key -/

/-- The segments of a key, if it can be read. -/
def segments? (key : String) : Option (List Segment) :=
  (parse key).toOption.map (List.map Token.segment)

theorem exists_parse_of_segments? {key : String} {segments : List Segment}
    (h : segments? key = some segments) :
    ∃ tokens, parse key = .ok tokens ∧ tokens.map Token.segment = segments := by
  cases hp : parse key with
  | error e => simp [segments?, hp, Except.toOption] at h
  | ok tokens => exact ⟨tokens, rfl, by simpa [segments?, hp, Except.toOption] using h⟩

theorem segments?_eq_some_iff {key : String} {segments : List Segment} :
    segments? key = some segments ↔ Spells segments ('.' :: key.toList) := by
  constructor
  · intro h
    obtain ⟨tokens, hp, rfl⟩ := exists_parse_of_segments? h
    exact (parse_eq_ok_iff.1 hp).spells
  · intro h
    generalize ht : '.' :: key.toList = t at h
    cases h with
    | nil => simp at ht
    | @name n segments s hn h =>
        obtain ⟨tokens, hscan, rfl⟩ := h.exists_scanned (Text.byteLength n.toList)
        have hparse : parse key = .ok (⟨.name n, 0, n.toList ++ s⟩ :: tokens) := by
          rw [parse_eq_ok_iff, ht]
          exact .name hn (by simpa using hscan)
        simp [segments?, hparse, Except.toOption]
    | index => simp at ht

/-- Plain keys with the same segments are the same. -/
theorem eq_of_segments? {key key' : String} {segments : List Segment} (hplain : Plain key.toList)
    (hplain' : Plain key'.toList) (h : segments? key = some segments)
    (h' : segments? key' = some segments) : key = key' := by
  have htext : '.' :: key.toList = '.' :: key'.toList := by
    rw [(segments?_eq_some_iff.1 h).eq_continued hplain.cons_point,
      (segments?_eq_some_iff.1 h').eq_continued hplain'.cons_point]
  exact String.toList_inj.1 (List.cons.inj htext).2

end LayeredConfig.Key
