import LayeredConfig.Proofs.Placeholder.Containment

/-!
# Placeholders between quotes

In a JSON document a text stands between quotes with some of its characters escaped, and its placeholders
are replaced by texts as they are.  This is the same as quoting the resolved text when nothing that a
placeholder is read from or replaced by would itself be escaped.

* `Quotable` — the texts of which this holds.
* `reference_escape`, `pass_escape`, `stage_escape` — escapes neither hide nor make a placeholder.
* `Quotable.resolvesTo` — what a quotable text becomes between quotes.
-/

namespace LayeredConfig.Placeholder

open Json (escape)

variable {flat : Properties} {r : Reference} {c : Char} {n : Nat} {s t w : List Char}

/-! ## Escapes -/

theorem hexDigit_plain (n : Nat) :
    isKeyChar (Json.hexDigit n) = true ∧ Json.hexDigit n ≠ maskChar ∧ Json.hexDigit n ≠ '\\' := by
  have hall : ∀ m < 16, isKeyChar (Nat.digitChar m) = true ∧ Nat.digitChar m ≠ maskChar ∧
      Nat.digitChar m ≠ '\\' := by decide
  exact hall (n % 16) (Nat.mod_lt n (by decide))

theorem isKeyChar_of_control (h : c.toNat < 0x20) : isKeyChar c = true := by
  have hne : ∀ d : Char, 0x20 ≤ d.toNat → c ≠ d := by
    rintro d hd rfl
    omega
  simp [isKeyChar, isDefaultChar, hne '$' (by decide), hne '{' (by decide), hne '}' (by decide),
    hne ':' (by decide)]

/-- A character stays as it is, or it becomes a backslash and characters without a meaning here. -/
theorem escape_cases (c : Char) :
    (escape c = [c] ∧ c ≠ '\\') ∨
      (isKeyChar c = true ∧ ∃ d w, escape c = '\\' :: d :: w ∧
        (∀ e ∈ d :: w, isKeyChar e = true ∧ e ≠ maskChar) ∧
          (c = '\\' ∧ d :: w = ['\\'] ∨ '\\' ∉ d :: w)) := by
  unfold escape
  split_ifs with h₁ h₂ h₃ h₄ h₅ h₆ h₇ h₈
  · subst h₁
    exact .inr ⟨by decide, '"', [], rfl, List.forall_mem_singleton.2 (by decide), by decide⟩
  · subst h₂
    exact .inr ⟨by decide, '\\', [], rfl, List.forall_mem_singleton.2 (by decide), by decide⟩
  · subst h₃
    exact .inr ⟨by decide, 'b', [], rfl, List.forall_mem_singleton.2 (by decide), by decide⟩
  · subst h₄
    exact .inr ⟨by decide, 'f', [], rfl, List.forall_mem_singleton.2 (by decide), by decide⟩
  · subst h₅
    exact .inr ⟨by decide, 'n', [], rfl, List.forall_mem_singleton.2 (by decide), by decide⟩
  · subst h₆
    exact .inr ⟨by decide, 'r', [], rfl, List.forall_mem_singleton.2 (by decide), by decide⟩
  · subst h₇
    exact .inr ⟨by decide, 't', [], rfl, List.forall_mem_singleton.2 (by decide), by decide⟩
  · obtain ⟨hhigh, hhighMask, hhighSlash⟩ := hexDigit_plain (c.toNat / 16)
    obtain ⟨hlow, hlowMask, hlowSlash⟩ := hexDigit_plain c.toNat
    refine .inr ⟨isKeyChar_of_control h₈, 'u', _, rfl, ?_, .inr ?_⟩
    · simp [hhigh, hhighMask, hlow, hlowMask]
      decide
    · simp [hhighSlash.symm, hlowSlash.symm]
  · exact .inl ⟨rfl, h₂⟩

theorem escape_eq_self (h : isKeyChar c = false) : escape c = [c] := by
  rcases escape_cases c with ⟨hself, -⟩ | ⟨hkey, -⟩
  · exact hself
  · rw [h] at hkey
    contradiction

theorem isKeyChar_of_mem_escape (h : isKeyChar c = true) : ∀ d ∈ escape c, isKeyChar d = true := by
  intro e he
  rcases escape_cases c with ⟨hself, -⟩ | ⟨-, d, w, hw, hin, -⟩
  · rw [hself, List.mem_singleton] at he
    rwa [he]
  · rw [hw] at he
    rcases List.mem_cons.1 he with rfl | he
    · rfl
    · exact (hin e he).1

theorem dollar_not_mem_escape (h : isKeyChar c = true) : '$' ∉ escape c := fun hmem =>
  absurd (isKeyChar_of_mem_escape h '$' hmem) (by decide)

theorem isDefaultChar_escape (c : Char) : (escape c).all isDefaultChar = isDefaultChar c := by
  rcases escape_cases c with ⟨hself, -⟩ | ⟨hkey, d, w, hw, hin, -⟩
  · simp [hself]
  · rw [isDefaultChar_of_isKeyChar hkey, hw, List.all_cons, Bool.and_eq_true, List.all_eq_true]
    exact ⟨rfl, fun e he => isDefaultChar_of_isKeyChar (hin e he).1⟩

theorem mem_escape_maskChar (h : maskChar ∈ escape c) : c = maskChar := by
  rcases escape_cases c with ⟨hself, -⟩ | ⟨-, d, w, hw, hin, -⟩
  · rw [hself, List.mem_singleton] at h
    exact h.symm
  · rw [hw] at h
    rcases List.mem_cons.1 h with h | h
    · exact absurd h (by decide)
    · exact absurd rfl (hin _ h).2

theorem mem_of_mem_escape_maskChar (h : maskChar ∈ s.flatMap escape) : maskChar ∈ s := by
  obtain ⟨c, hc, hmem⟩ := List.mem_flatMap.1 h
  rwa [← mem_escape_maskChar hmem]

theorem isKeyChar_of_mem_opening : ∀ c ∈ ['$', '{'], isKeyChar c = false :=
  List.forall_mem_cons.2 ⟨by decide, List.forall_mem_singleton.2 (by decide)⟩

/-- What is never escaped stands at the start of an escaped text when it stands there before. -/
theorem isPrefix_escape_iff (hw : ∀ c ∈ w, isKeyChar c = false) :
    w <+: s.flatMap escape ↔ w <+: s := by
  induction w generalizing s with
  | nil => simp
  | cons c w ih =>
      have hc := hw c List.mem_cons_self
      have hw := fun d hd => hw d (List.mem_cons_of_mem c hd)
      cases s with
      | nil => simp
      | cons d s =>
          rw [List.flatMap_cons, List.cons_prefix_cons]
          rcases escape_cases d with ⟨hself, -⟩ | ⟨hkey, e, v, hv, -⟩
          · rw [hself, List.singleton_append, List.cons_prefix_cons, ih hw]
          · rw [hv, List.cons_append, List.cons_prefix_cons]
            constructor
            · rintro ⟨rfl, -⟩
              exact absurd hc (by decide)
            · rintro ⟨rfl, -⟩
              rw [hc] at hkey
              contradiction

theorem takeWhile_isKeyChar_escape (s : List Char) :
    (s.flatMap escape).takeWhile isKeyChar = (s.takeWhile isKeyChar).flatMap escape :=
  Text.takeWhile_flatMap (fun _ => isKeyChar_of_mem_escape) (fun _ => escape_eq_self) s

theorem dropWhile_isKeyChar_escape (s : List Char) :
    (s.flatMap escape).dropWhile isKeyChar = (s.dropWhile isKeyChar).flatMap escape :=
  Text.dropWhile_flatMap (fun _ => isKeyChar_of_mem_escape) (fun _ => escape_eq_self) s

theorem isDefaultChar_of_mem_escape (h : isDefaultChar c = true) :
    ∀ d ∈ escape c, isDefaultChar d = true :=
  List.all_eq_true.1 ((isDefaultChar_escape c).trans h)

theorem escape_eq_self_of_isDefaultChar (h : isDefaultChar c = false) : escape c = [c] :=
  escape_eq_self (by rw [isKeyChar, h, Bool.false_and])

theorem dropWhile_isDefaultChar_escape (s : List Char) :
    (s.flatMap escape).dropWhile isDefaultChar = (s.dropWhile isDefaultChar).flatMap escape :=
  Text.dropWhile_flatMap (fun _ => isDefaultChar_of_mem_escape)
    (fun _ => escape_eq_self_of_isDefaultChar) s

/-! ## References between quotes -/

/-- A placeholder as it stands between quotes. -/
def Reference.escaped (r : Reference) : Reference :=
  ⟨r.key.flatMap escape, r.fallback.map fun fallback => fallback.flatMap escape⟩

theorem Reference.text_escaped (r : Reference) : r.escaped.text = r.text.flatMap escape := by
  obtain ⟨key, _ | fallback⟩ := r <;>
    simp [Reference.text, Reference.escaped, escape_eq_self (show isKeyChar '$' = false by decide),
      escape_eq_self (show isKeyChar '{' = false by decide),
      escape_eq_self (show isKeyChar '}' = false by decide),
      escape_eq_self (show isKeyChar ':' = false by decide)]

theorem escape_ne_nil (c : Char) : escape c ≠ [] := by
  rcases escape_cases c with ⟨hself, -⟩ | ⟨-, d, w, hw, -⟩
  · simp [hself]
  · simp [hw]

theorem Reference.Readable.escaped (h : r.Readable) : r.escaped.Readable where
  key_ne_nil := by
    obtain ⟨c, key, hkey⟩ := List.exists_cons_of_ne_nil h.key_ne_nil
    simp [Reference.escaped, hkey, escape_ne_nil]
  key_chars := by
    intro d hd
    obtain ⟨c, hc, hd⟩ := List.mem_flatMap.1 hd
    exact isKeyChar_of_mem_escape (h.key_chars c hc) d hd
  fallback_chars := by
    intro f hf d hd
    obtain ⟨fallback, hfallback, rfl⟩ := Option.map_eq_some_iff.1 hf
    obtain ⟨c, hc, hd⟩ := List.mem_flatMap.1 hd
    exact isDefaultChar_of_mem_escape (h.fallback_chars fallback hfallback c hc) d hd

/-- Escapes make no placeholder. -/
theorem reference_escape (h : reference s = none) : reference (s.flatMap escape) = none := by
  by_cases hstart : ['$', '{'] <+: s
  · obtain ⟨u, rfl⟩ := hstart
    have hopening : (['$', '{'] ++ u).flatMap escape = '$' :: '{' :: u.flatMap escape := rfl
    rw [hopening]
    change reference ('$' :: '{' :: u) = none at h
    by_cases hkey : u.takeWhile isKeyChar = []
    · simp [reference, takeWhile_isKeyChar_escape, hkey]
    cases hdrop : u.dropWhile isKeyChar with
    | nil => simp [reference, dropWhile_isKeyChar_escape, hdrop]
    | cons d rest =>
        have hd : escape d = [d] := escape_eq_self (Text.head_of_dropWhile hdrop)
        by_cases hclose : d = '}'
        · simp [reference, hkey, hdrop, hclose] at h
        by_cases hcolon : d = ':'
        · subst hcolon
          cases hdrop' : rest.dropWhile isDefaultChar with
          | nil =>
              simp [reference, dropWhile_isKeyChar_escape, dropWhile_isDefaultChar_escape, hdrop, hd,
                hdrop']
          | cons e rest' =>
              have he : escape e = [e] := escape_eq_self_of_isDefaultChar (Text.head_of_dropWhile hdrop')
              by_cases hclose' : e = '}'
              · simp [reference, hkey, hdrop, hdrop', hclose'] at h
              · simp [reference, dropWhile_isKeyChar_escape, dropWhile_isDefaultChar_escape, hdrop, hd,
                  hdrop', he, hclose']
        · simp [reference, dropWhile_isKeyChar_escape, hdrop, hd, hclose, hcolon]
  · cases hfound : reference (s.flatMap escape) with
    | none => rfl
    | some found =>
        obtain ⟨-, -, t, ht⟩ := reference_eq_some_iff.1 hfound
        rw [Reference.text_eq] at ht
        have hopening : ['$', '{'] <+: s.flatMap escape := ⟨_, ht.symm⟩
        exact absurd ((isPrefix_escape_iff isKeyChar_of_mem_opening).1 hopening) hstart

/-- A placeholder that means the same between quotes: neither its key nor the text that it is bound to
is written with escapes. -/
def Reference.Verbatim (flat : Properties) (r : Reference) : Prop :=
  r.key.flatMap escape = r.key ∧ ∀ text ∈ bound? flat r, text.flatMap escape = text

instance (flat : Properties) : DecidablePred (Reference.Verbatim flat) := fun r =>
  inferInstanceAs (Decidable (r.key.flatMap escape = r.key ∧
    ∀ text ∈ bound? flat r, text.flatMap escape = text))

theorem Reference.Verbatim.substitute_escaped (h : r.Verbatim flat) :
    substitute flat r.escaped = (substitute flat r).flatMap escape := by
  have hbound : bound? flat r.escaped = bound? flat r := by
    rw [bound?, bound?, Reference.name, Reference.name, Reference.escaped, h.1]
  rw [substitute, substitute, hbound]
  cases hr : bound? flat r with
  | some text => exact (h.2 text hr).symm
  | none =>
      rw [Reference.text_escaped]
      cases hfallback : r.fallback <;> simp [Reference.escaped, hfallback]

theorem pass_escape (h : ∀ r ∈ Text.occurrences reference s, r.Verbatim flat) :
    pass flat (s.flatMap escape) = (pass flat s).flatMap escape := by
  induction s using pass_induction with
  | nil => rfl
  | found r s hr ih =>
      rw [occurrences_text_append hr, List.forall_mem_cons] at h
      rw [List.flatMap_append, ← Reference.text_escaped, pass_text_append hr.escaped,
        pass_text_append hr, List.flatMap_append, h.1.substitute_escaped, ih h.2]
  | plain c s hnone ih =>
      rw [Text.occurrences_of_none hnone] at h
      have hescaped := reference_escape hnone
      rw [pass_cons hnone, List.flatMap_cons, List.flatMap_cons, ← ih h]
      rw [List.flatMap_cons] at hescaped
      rcases escape_cases c with ⟨hself, -⟩ | ⟨hkey, -⟩
      · rw [hself, List.singleton_append] at hescaped ⊢
        rw [pass_cons hescaped, List.singleton_append]
      · exact pass_of_no_dollar (dollar_not_mem_escape hkey) _

theorem endsOpen_escape (s : List Char) : endsOpen (s.flatMap escape) = endsOpen s := by
  induction s using endsOpen.induct with
  | case1 s ih =>
      have hopening : ('$' :: '{' :: s).flatMap escape = '$' :: '{' :: s.flatMap escape := rfl
      rw [hopening, endsOpen, endsOpen, ih, List.all_flatMap]
      simp [isDefaultChar_escape]
  | case2 c s h ih =>
      rw [endsOpen]
      · rw [List.flatMap_cons, ← ih]
        rcases escape_cases c with ⟨hself, -⟩ | ⟨hkey, -⟩
        · rw [hself, List.singleton_append, endsOpen]
          rintro t rfl ht
          have hbrace : ['{'] <+: s :=
            (isPrefix_escape_iff (List.forall_mem_singleton.2 (by decide))).1 (ht ▸ ⟨t, rfl⟩)
          obtain ⟨u, rfl⟩ := hbrace
          exact h u rfl rfl
        · exact endsOpen_of_no_dollar (dollar_not_mem_escape hkey) _
      · exact h
  | case3 => rfl

theorem mask_escape (h : ¬ ['\\', '$', '{'] <:+: s) : mask (s.flatMap escape) = s.flatMap escape := by
  induction s with
  | nil => rfl
  | cons c s ih =>
      have hs : mask (s.flatMap escape) = s.flatMap escape :=
        ih fun hpart => h (hpart.trans (List.suffix_cons c s).isInfix)
      rw [List.flatMap_cons]
      rcases escape_cases c with ⟨hself, hne⟩ | ⟨-, d, w, hw, hin, ⟨rfl, hboth⟩ | hslash⟩
      · rw [hself, List.singleton_append, mask_cons_of_ne hne, hs]
      · -- the second backslash does not escape an opening behind it
        have hopening : ¬ ['$', '{'] <+: s.flatMap escape := fun hstart => by
          obtain ⟨t, rfl⟩ := (isPrefix_escape_iff isKeyChar_of_mem_opening).1 hstart
          exact h ⟨[], t, rfl⟩
        rw [hw, hboth, List.cons_append, List.singleton_append, mask_cons, mask_cons, hs]
        · simpa using hopening
        · simp
      · have hd : isKeyChar d = true := (hin d List.mem_cons_self).1
        rw [hw, List.cons_append, mask_cons, mask_of_no_slash hslash, hs]
        rintro ⟨t, ht⟩
        obtain ⟨rfl, -⟩ : '$' = d ∧ _ := by simpa using ht
        exact absurd hd (by decide)

theorem unmask_escape (s : List Char) : unmask (s.flatMap escape) = (unmask s).flatMap escape := by
  rw [unmask, unmask, List.flatMap_assoc, List.flatMap_assoc]
  refine List.flatMap_congr fun c _ => ?_
  by_cases hc : c = maskChar
  · subst hc
    rfl
  · rw [if_neg hc, List.flatMap_singleton]
    exact unmask_eq_self fun hmem => hc (mem_escape_maskChar hmem)

/-! ## Texts between quotes -/

/-- A text that is resolved between quotes as it is on its own. -/
structure Quotable (flat : Properties) (s : List Char) : Prop extends Contained flat s where
  /-- An escaped opening would lose one of the two backslashes that it is written with. -/
  unescaped : ¬ ['\\', '$', '{'] <:+: s
  verbatim : ∀ n < maxPasses, ∀ r ∈ Text.occurrences reference (stage flat n s), r.Verbatim flat

instance (flat : Properties) : DecidablePred (Quotable flat) := fun s =>
  decidable_of_iff (Contained flat s ∧ ¬ ['\\', '$', '{'] <:+: s ∧
    ∀ n < maxPasses, ∀ r ∈ Text.occurrences reference (stage flat n s), r.Verbatim flat)
    ⟨fun h => ⟨h.1, h.2.1, h.2.2⟩, fun h => ⟨h.toContained, h.unescaped, h.verbatim⟩⟩

theorem Quotable.stage_escape (h : Quotable flat s) (hn : n ≤ maxPasses) :
    stage flat n (s.flatMap escape) = (stage flat n s).flatMap escape := by
  induction n with
  | zero => rw [stage_zero, stage_zero, mask_escape h.unescaped, mask_eq_self h.unescaped]
  | succ n ih =>
      rw [stage_succ, ih (Nat.le_of_succ_le hn), pass_escape (h.verbatim n hn), stage_succ]

theorem hasOpening_escape (s : List Char) : hasOpening (s.flatMap escape) = hasOpening s := by
  induction s with
  | nil => rfl
  | cons c s ih =>
      rw [List.flatMap_cons]
      rcases escape_cases c with ⟨hself, -⟩ | ⟨hkey, -⟩
      · have hstart : ['$', '{'] <+: (c :: s).flatMap escape ↔ ['$', '{'] <+: c :: s :=
          isPrefix_escape_iff isKeyChar_of_mem_opening
        rw [List.flatMap_cons, hself, List.singleton_append] at hstart
        rw [hself, List.singleton_append, Bool.eq_iff_iff, hasOpening_cons_iff, hasOpening_cons_iff,
          hstart, ih]
      · have hc : '$' ∉ [c] := fun hmem => by
          rw [← List.mem_singleton.1 hmem] at hkey
          exact absurd hkey (by decide)
        rw [hasOpening_of_no_dollar (dollar_not_mem_escape hkey), ih,
          ← hasOpening_of_no_dollar hc s, List.singleton_append]

theorem Quotable.contained_escape (h : Quotable flat s) : Contained flat (s.flatMap escape) where
  unmasked := fun hmem => by
    rw [hasOpening_escape]
    exact h.unmasked (mem_of_mem_escape_maskChar hmem)
  closed := fun n hn => by
    rw [h.stage_escape (Nat.le_of_lt hn), endsOpen_escape]
    exact h.closed n hn

/-- Between quotes a quotable text becomes what it is resolved to on its own, quoted. -/
theorem Quotable.resolvesTo (h : Quotable flat s) :
    ResolvesTo flat (s.flatMap escape) ((resolve flat s).flatMap escape) := by
  have hstage : resolveMasked flat (s.flatMap escape) = (resolveMasked flat s).flatMap escape := by
    rw [resolveMasked_eq_stage, resolveMasked_eq_stage, h.stage_escape le_rfl]
  have hresolved := h.contained_escape.resolvesTo
  rwa [resolve_eq_unmask h.contained_escape.unmasked, hstage, unmask_escape,
    ← resolve_eq_unmask h.unmasked] at hresolved

end LayeredConfig.Placeholder
