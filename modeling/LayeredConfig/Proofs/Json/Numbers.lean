import LayeredConfig.Json.Printer
import LayeredConfig.Json.Reader
import LayeredConfig.Proofs.Key.Plain
import LayeredConfig.Proofs.Text.Runs
import Mathlib.Data.List.Basic

/-!
# Reading numbers that were written

A number is read up to the first character that cannot go on in it, so that more text may follow.  A whole
number is read back from its decimal text.

* `readMagnitude_eq_some_iff` — what is read behind the sign, part by part.
* `readNumber_append` — a number in front of more text.
* `readNumber_whole` — the decimal text of a whole number.
* `isNumberChar_of_mem_json` — the characters that numbers are written with.
-/

namespace LayeredConfig

namespace Json

variable {c : Char} {s t rest : List Char}

/-! ## A number in front of more text -/

/-- A text that no number before it goes on in. -/
def Terminated (s : List Char) : Prop :=
  ∀ c ∈ s.head?, Text.isDigit c = false ∧ c ≠ '.' ∧ c ≠ 'e' ∧ c ≠ 'E'

theorem terminated_nil : Terminated [] := by simp [Terminated]

theorem terminated_cons :
    Terminated (c :: s) ↔ Text.isDigit c = false ∧ c ≠ '.' ∧ c ≠ 'e' ∧ c ≠ 'E' := by
  simp [Terminated]

theorem readDigits_eq_some_iff {digits : List Char} :
    readDigits s = some (digits, t) ↔
      digits ≠ [] ∧ s.takeWhile Text.isDigit = digits ∧ s.dropWhile Text.isDigit = t := by
  unfold readDigits spanDigits
  cases htake : s.takeWhile Text.isDigit with
  | nil => simpa using fun hne hnil => absurd hnil hne
  | cons c run =>
      simp only [Option.some.injEq, Prod.mk.injEq]
      constructor
      · rintro ⟨rfl, rfl⟩
        exact ⟨List.cons_ne_nil c run, rfl, rfl⟩
      · exact fun h => h.2

theorem readDigits_append {digits : List Char} (h : readDigits s = some (digits, t))
    (hrest : Terminated rest) : readDigits (s ++ rest) = some (digits, t ++ rest) := by
  obtain ⟨hne, htake, hdrop⟩ := readDigits_eq_some_iff.1 h
  have hhead : ∀ c ∈ rest.head?, Text.isDigit c = false := fun c hc => (hrest c hc).1
  rw [readDigits_eq_some_iff, Text.takeWhile_append_of_head hhead, Text.dropWhile_append_of_head hhead,
    htake, hdrop]
  exact ⟨hne, rfl, rfl⟩

theorem readFraction_append {fraction : Option (List Char)}
    (h : readFraction s = some (fraction, t)) (hrest : Terminated rest) :
    readFraction (s ++ rest) = some (fraction, t ++ rest) := by
  unfold readFraction at h
  split at h
  · rename_i s
    obtain ⟨⟨digits, u⟩, hread, heq⟩ := Option.map_eq_some_iff.1 h
    obtain ⟨rfl, rfl⟩ := Prod.mk.inj heq
    simp [readFraction, readDigits_append hread hrest]
  · rename_i hpoint
    obtain ⟨rfl, rfl⟩ := Prod.mk.inj (Option.some.inj h)
    rw [readFraction]
    rintro u hu
    cases s with
    | nil =>
        rw [List.nil_append] at hu
        subst hu
        exact (terminated_cons.1 hrest).2.1 rfl
    | cons c s =>
        obtain ⟨rfl, -⟩ := List.cons.inj hu
        exact hpoint s rfl

/-- The digits of an exponent behind its sign, if it has one. -/
def readSigned : List Char → Option (Option Int × List Char)
  | '-' :: s => (readDigits s).map fun (digits, rest) => (some (-(digitsValue digits : Int)), rest)
  | '+' :: s => (readDigits s).map fun (digits, rest) => (some (digitsValue digits), rest)
  | s => (readDigits s).map fun (digits, rest) => (some (digitsValue digits), rest)

theorem readExponent_eq (s : List Char) :
    readExponent s =
      match s with
      | 'e' :: s => readSigned s
      | 'E' :: s => readSigned s
      | s => some (none, s) := rfl

theorem readSigned_append {exponent : Option Int} (h : readSigned s = some (exponent, t))
    (hrest : Terminated rest) : readSigned (s ++ rest) = some (exponent, t ++ rest) := by
  unfold readSigned at h
  split at h
  · obtain ⟨⟨digits, u⟩, hread, heq⟩ := Option.map_eq_some_iff.1 h
    obtain ⟨rfl, rfl⟩ := Prod.mk.inj heq
    simp [readSigned, readDigits_append hread hrest]
  · obtain ⟨⟨digits, u⟩, hread, heq⟩ := Option.map_eq_some_iff.1 h
    obtain ⟨rfl, rfl⟩ := Prod.mk.inj heq
    simp [readSigned, readDigits_append hread hrest]
  · rename_i hminus hplus
    obtain ⟨⟨digits, u⟩, hread, heq⟩ := Option.map_eq_some_iff.1 h
    obtain ⟨rfl, rfl⟩ := Prod.mk.inj heq
    cases s with
    | nil => simp [readDigits, spanDigits] at hread
    | cons c s =>
        rw [readSigned, readDigits_append hread hrest, Option.map_some]
        · rintro v hv
          exact hminus s (by rw [(List.cons.inj hv).1])
        · rintro v hv
          exact hplus s (by rw [(List.cons.inj hv).1])

theorem readExponent_append {exponent : Option Int} (h : readExponent s = some (exponent, t))
    (hrest : Terminated rest) : readExponent (s ++ rest) = some (exponent, t ++ rest) := by
  rw [readExponent_eq] at h
  split at h
  · exact readSigned_append h hrest
  · exact readSigned_append h hrest
  · rename_i hlower hupper
    obtain ⟨rfl, rfl⟩ := Prod.mk.inj (Option.some.inj h)
    rw [readExponent_eq]
    cases s with
    | nil =>
        cases rest with
        | nil => rfl
        | cons c rest =>
            obtain ⟨-, -, hlow, hup⟩ := terminated_cons.1 hrest
            simp [hlow, hup]
    | cons c s =>
        have hlow : c ≠ 'e' := fun hc => hlower s (by rw [hc])
        have hup : c ≠ 'E' := fun hc => hupper s (by rw [hc])
        simp [hlow, hup]

/-- The number behind its sign. -/
def readMagnitude (negative : Bool) (s : List Char) : Option (Number × List Char) := do
  let (whole, s) ← readDigits s
  if whole.head? = some '0' && whole.length ≠ 1 then none
  let (fraction, s) ← readFraction s
  let (exponent, s) ← readExponent s
  return (← numberOf negative whole fraction exponent, s)

theorem readNumber_minus (s : List Char) : readNumber ('-' :: s) = readMagnitude true s := rfl

theorem readNumber_of_ne (h : ∀ u, s ≠ '-' :: u) : readNumber s = readMagnitude false s := by
  unfold readNumber
  split
  rename_i negative u hsign
  split at hsign
  · exact absurd rfl (h _)
  · obtain ⟨rfl, rfl⟩ := Prod.mk.inj hsign
    rfl

theorem readMagnitude_eq_some_iff {negative : Bool} {n : Number} :
    readMagnitude negative s = some (n, t) ↔
      ∃ whole s₁ fraction s₂ exponent, readDigits s = some (whole, s₁) ∧
        ¬ (whole.head? = some '0' ∧ whole.length ≠ 1) ∧ readFraction s₁ = some (fraction, s₂) ∧
          readExponent s₂ = some (exponent, t) ∧ numberOf negative whole fraction exponent = some n := by
  unfold readMagnitude
  constructor
  · intro h
    obtain ⟨⟨whole, s₁⟩, hwhole, h⟩ := Option.bind_eq_some_iff.1 h
    simp only at h
    split at h
    · contradiction
    · rename_i hzero
      obtain ⟨⟨fraction, s₂⟩, hfraction, h⟩ := Option.bind_eq_some_iff.1 h
      obtain ⟨⟨exponent, s₃⟩, hexponent, h⟩ := Option.bind_eq_some_iff.1 h
      obtain ⟨m, hnumber, h⟩ := Option.bind_eq_some_iff.1 h
      obtain ⟨rfl, rfl⟩ := Prod.mk.inj (Option.some.inj h)
      exact ⟨whole, s₁, fraction, s₂, exponent, hwhole, by simpa using hzero, hfraction, hexponent,
        hnumber⟩
  · rintro ⟨whole, s₁, fraction, s₂, exponent, hwhole, hzero, hfraction, hexponent, hnumber⟩
    simp [hwhole, hzero, hfraction, hexponent, hnumber]

theorem readMagnitude_append {negative : Bool} {n : Number} (h : readMagnitude negative s = some (n, t))
    (hrest : Terminated rest) : readMagnitude negative (s ++ rest) = some (n, t ++ rest) := by
  obtain ⟨whole, s₁, fraction, s₂, exponent, hwhole, hzero, hfraction, hexponent, hnumber⟩ :=
    readMagnitude_eq_some_iff.1 h
  exact readMagnitude_eq_some_iff.2 ⟨whole, s₁ ++ rest, fraction, s₂ ++ rest, exponent,
    readDigits_append hwhole hrest, hzero, readFraction_append hfraction hrest,
    readExponent_append hexponent hrest, hnumber⟩

/-- A number is read in front of more text as it is read on its own. -/
theorem readNumber_append {n : Number} (h : readNumber s = some (n, t)) (hrest : Terminated rest) :
    readNumber (s ++ rest) = some (n, t ++ rest) := by
  by_cases hminus : ∃ u, s = '-' :: u
  · obtain ⟨u, rfl⟩ := hminus
    exact readMagnitude_append h hrest
  · have hs : ∀ u, s ≠ '-' :: u := fun u hu => hminus ⟨u, hu⟩
    rw [readNumber_of_ne hs] at h
    rw [readNumber_of_ne, readMagnitude_append h hrest]
    intro u hu
    cases s with
    | nil => simp [readMagnitude, readDigits, spanDigits] at h
    | cons c s => exact hs s (by rw [(List.cons.inj hu).1])

/-! ## Whole numbers -/

theorem readDigits_toDigits (i : Nat) : readDigits (Nat.toDigits 10 i) = some (Nat.toDigits 10 i, []) :=
  readDigits_eq_some_iff.2 ⟨Nat.toDigits_ne_nil,
    List.takeWhile_eq_self_iff.2 fun _ => Key.isDigit_of_mem_toDigits,
    List.dropWhile_eq_nil_iff.2 fun _ => Key.isDigit_of_mem_toDigits⟩

theorem digitsValue_toDigits (i : Nat) : digitsValue (Nat.toDigits 10 i) = i := Key.indexValue_toDigits i

theorem eq_zero_of_head?_toDigits {i : Nat} (h : (Nat.toDigits 10 i).head? = some '0') : i = 0 := by
  induction i using Nat.strong_induction_on with
  | _ i ih =>
      by_cases hi : i < 10
      · rw [Nat.toDigits_of_lt_base hi] at h
        have hall : ∀ k < 10, Nat.digitChar k = '0' → k = 0 := by decide
        exact hall i hi (by simpa using h)
      · -- the first digit is that of a tenth of the number
        have hsplit : Nat.toDigits 10 (i / 10) ++ Nat.toDigits 10 (i % 10) = Nat.toDigits 10 i := by
          rw [Nat.toDigits_append_toDigits (by decide) (by omega) (by omega), Nat.div_add_mod]
        rw [← hsplit, List.head?_append_of_ne_nil _ Nat.toDigits_ne_nil] at h
        have := ih (i / 10) (by omega) h
        omega

theorem readMagnitude_toDigits {negative : Bool} {i : Nat} {w : Whole}
    (hw : w.value = if negative then -(i : Int) else i) (hzero : ¬ (negative = true ∧ i = 0)) :
    readMagnitude negative (Nat.toDigits 10 i) = some (.whole w, []) := by
  refine readMagnitude_eq_some_iff.2 ⟨_, [], none, [], none, readDigits_toDigits i, ?_, rfl, rfl, ?_⟩
  · rintro ⟨hhead, hlength⟩
    rw [eq_zero_of_head?_toDigits hhead] at hlength
    exact hlength rfl
  · have hfits : Whole.ofInt? w.value = some w := by rw [Whole.ofInt?, dif_pos ⟨w.lower, w.upper⟩]
    have hnot : (negative && decide (i = 0)) = false := by simpa using hzero
    simp [numberOf, digitsValue_toDigits, hnot, ← hw, hfits]

theorem readNumber_whole (w : Whole) : readNumber (decimal w.value) = some (.whole w, []) := by
  unfold decimal
  split
  · rename_i hneg
    rw [readNumber_minus]
    refine readMagnitude_toDigits ?_ fun ⟨_, hzero⟩ => ?_
    · rw [if_pos rfl]
      omega
    · omega
  · rename_i hpos
    rw [readNumber_of_ne]
    · refine readMagnitude_toDigits ?_ (by simp)
      rw [if_neg (by decide)]
      omega
    · intro u hu
      have hminus : Text.isDigit '-' = true := Key.isDigit_of_mem_toDigits (hu ▸ List.mem_cons_self)
      exact absurd hminus (by decide)

/-! ## Characters of numbers -/

theorem exists_head_of_readNumber {n : Number} (h : readNumber s = some (n, t)) :
    ∃ c u, s = c :: u ∧ (c = '-' ∨ Text.isDigit c = true) := by
  by_cases hminus : ∃ u, s = '-' :: u
  · obtain ⟨u, rfl⟩ := hminus
    exact ⟨'-', u, rfl, .inl rfl⟩
  · rw [readNumber_of_ne fun u hu => hminus ⟨u, hu⟩] at h
    obtain ⟨whole, s₁, -, -, -, hwhole, -⟩ := readMagnitude_eq_some_iff.1 h
    obtain ⟨hne, htake, -⟩ := readDigits_eq_some_iff.1 hwhole
    cases s with
    | nil => exact absurd htake.symm hne
    | cons c u =>
        refine ⟨c, u, rfl, .inr ?_⟩
        by_contra hc
        exact hne (by simpa [hc] using htake.symm)

theorem ne_of_number_head (hc : c = '-' ∨ Text.isDigit c = true) :
    ∀ d ∈ [' ', '\n', '\t', '\r', 'n', 't', 'f', '"', '[', ']', '{'], c ≠ d := by
  rintro c hd rfl
  rcases hc with rfl | hc
  · exact absurd hd (by decide)
  · exact absurd (List.any_eq_true.2 ⟨c, hd, hc⟩) (by decide)

theorem isSpace_of_number_head (hc : c = '-' ∨ Text.isDigit c = true) :
    isSpace c = false := by
  have hne := ne_of_number_head hc
  simp only [List.forall_mem_cons] at hne
  simp [isSpace, hne]

/-- Characters that a number is written with. -/
def isNumberChar (c : Char) : Bool := Text.isDigit c || c = '-' || c = '+' || c = '.' || c = 'e'

theorem isNumberChar_of_isDigit (h : Text.isDigit c = true) : isNumberChar c = true := by
  simp [isNumberChar, h]

theorem isNumberChar_of_mem_decimal {i : Int} (h : c ∈ decimal i) : isNumberChar c = true := by
  unfold decimal at h
  split at h
  · rcases List.mem_cons.1 h with rfl | h
    · rfl
    · exact isNumberChar_of_isDigit (Key.isDigit_of_mem_toDigits h)
  · exact isNumberChar_of_isDigit (Key.isDigit_of_mem_toDigits h)

theorem isDigit_of_mem_shortest {x : Binary64} (h : c ∈ x.shortest.digits) :
    Text.isDigit c = true := by
  unfold Binary64.shortest at h
  split at h
  · rw [List.mem_singleton.1 h]
    rfl
  · rw [List.mem_reverse] at h
    have hkept := (List.dropWhile_sublist _).subset h
    exact Key.isDigit_of_mem_toDigits (List.mem_reverse.1 hkept)

theorem isNumberChar_of_mem_positional {d : Digits} (hd : ∀ c ∈ d.digits, Text.isDigit c = true)
    (h : c ∈ d.positional) : isNumberChar c = true := by
  have hzero : ∀ n, c ∈ List.replicate n '0' → isNumberChar c = true := fun n hc => by
    rw [List.eq_of_mem_replicate hc]
    rfl
  unfold Digits.positional at h
  split at h
  · simp only [List.mem_cons, List.mem_append] at h
    rcases h with rfl | rfl | hc | hc
    · rfl
    · rfl
    · exact hzero _ hc
    · exact isNumberChar_of_isDigit (hd c hc)
  · simp only [List.mem_cons, List.mem_append] at h
    rcases h with (hc | hc) | rfl | hc
    · exact isNumberChar_of_isDigit (hd c (List.mem_of_mem_take hc))
    · exact hzero _ hc
    · rfl
    · split at hc
      · rw [List.mem_singleton.1 hc]
        rfl
      · exact isNumberChar_of_isDigit (hd c (List.mem_of_mem_drop hc))

theorem isNumberChar_of_mem_scientific {d : Digits} {plusSign : Bool}
    (hd : ∀ c ∈ d.digits, Text.isDigit c = true) (h : c ∈ d.scientific plusSign) :
    isNumberChar c = true := by
  simp only [Digits.scientific, List.mem_cons, List.mem_append] at h
  rcases h with hc | rfl | hc | hc
  · split at hc
    · rename_i first second rest hdigits
      simp only [hdigits, List.mem_cons] at hd hc
      rcases hc with rfl | rfl | hc
      · exact isNumberChar_of_isDigit (hd _ (.inl rfl))
      · rfl
      · exact isNumberChar_of_isDigit (hd c (.inr hc))
    · exact isNumberChar_of_isDigit (hd c hc)
  · rfl
  · split at hc
    · rw [List.mem_singleton.1 hc]
      rfl
    · contradiction
  · exact isNumberChar_of_mem_decimal hc

theorem isNumberChar_of_mem_text {x : Binary64} {layout : DecimalLayout} (h : c ∈ x.text layout) :
    isNumberChar c = true := by
  have hdigits : ∀ c ∈ x.shortest.digits, Text.isDigit c = true := fun _ => isDigit_of_mem_shortest
  have hmagnitude : ∀ p : Prop, [Decidable p] →
      c ∈ (if p then x.shortest.positional else x.shortest.scientific layout.plusSign) →
        isNumberChar c = true := by
    intro p _ hc
    split at hc
    · exact isNumberChar_of_mem_positional hdigits hc
    · exact isNumberChar_of_mem_scientific hdigits hc
  dsimp only [Binary64.text] at h
  split at h
  · rcases List.mem_cons.1 h with rfl | h
    · rfl
    · exact hmagnitude _ h
  · exact hmagnitude _ h

theorem isNumberChar_of_mem_json {n : Number} (h : c ∈ n.json) : isNumberChar c = true := by
  cases n with
  | whole w => exact isNumberChar_of_mem_decimal h
  | float x => exact isNumberChar_of_mem_text h

end Json

end LayeredConfig
