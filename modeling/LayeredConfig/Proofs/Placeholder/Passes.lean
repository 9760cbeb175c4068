import LayeredConfig.Placeholder
import LayeredConfig.Proofs.Text.Pieces
import LayeredConfig.Proofs.Text.Runs

/-!
# Passes over a text

One pass replaces the innermost placeholders of a text.  Where a text does not end within a placeholder,
and what follows does not go on where it ends, the two are passed over independently.

* `reference_eq_some_iff` — a placeholder is read at a text exactly when its own text stands there.
* `pass_induction` — induction on a text by the steps of a pass.
* `pass_append` — two texts side by side.
* `stage_append` — the same for the masked text after any number of passes.
* `searchAgain_eq` — it makes no difference that the passes end when one of them changes nothing.
-/

namespace LayeredConfig.Placeholder

variable {flat : Properties} {r : Reference} {c : Char} {n : Nat} {s t w : List Char}

/-! ## References -/

/-- A placeholder that is read back from its text. -/
structure Reference.Readable (r : Reference) : Prop where
  key_ne_nil : r.key ≠ []
  key_chars : ∀ c ∈ r.key, isKeyChar c = true
  fallback_chars : ∀ f ∈ r.fallback, ∀ c ∈ f, isDefaultChar c = true

/-- What stands between the braces of a placeholder. -/
def Reference.inside (r : Reference) : List Char :=
  match r.fallback with
  | none => r.key
  | some fallback => r.key ++ ':' :: fallback

theorem Reference.text_eq (r : Reference) : r.text = '$' :: '{' :: (r.inside ++ ['}']) := by
  obtain ⟨key, _ | fallback⟩ := r <;> simp [Reference.text, Reference.inside]

theorem Reference.text_ne_nil (r : Reference) : r.text ≠ [] := by
  rw [r.text_eq]
  exact List.cons_ne_nil _ _

theorem isDefaultChar_of_isKeyChar (h : isKeyChar c = true) : isDefaultChar c = true := by
  rw [isKeyChar, Bool.and_eq_true] at h
  exact h.1

theorem Reference.Readable.isDefaultChar_of_mem (h : r.Readable) (hc : c ∈ r.inside) :
    isDefaultChar c = true := by
  obtain ⟨key, _ | fallback⟩ := r
  · exact isDefaultChar_of_isKeyChar (h.key_chars c hc)
  · rcases List.mem_append.1 hc with hkey | hrest
    · exact isDefaultChar_of_isKeyChar (h.key_chars c hkey)
    · rcases List.mem_cons.1 hrest with rfl | hfallback
      · rfl
      · exact h.fallback_chars fallback rfl c hfallback

theorem reference_text_append (h : r.Readable) (s : List Char) :
    reference (r.text ++ s) = some (r, r.text.length) := by
  obtain ⟨hne, hkey, hfallback⟩ := h
  obtain ⟨key, _ | fallback⟩ := r
  · have htake := Text.takeWhile_append_cons hkey (show isKeyChar '}' = false by decide) s
    have hdrop := Text.dropWhile_append_cons hkey (show isKeyChar '}' = false by decide) s
    simp only at hne htake hdrop
    simp [Reference.text, reference, htake, hdrop, hne]
  · have hin := hfallback fallback rfl
    have htake := Text.takeWhile_append_cons hkey (show isKeyChar ':' = false by decide)
      (fallback ++ '}' :: s)
    have hdrop := Text.dropWhile_append_cons hkey (show isKeyChar ':' = false by decide)
      (fallback ++ '}' :: s)
    have htake' := Text.takeWhile_append_cons hin (show isDefaultChar '}' = false by decide) s
    have hdrop' := Text.dropWhile_append_cons hin (show isDefaultChar '}' = false by decide) s
    simp only at hne htake hdrop
    simp [Reference.text, reference, htake, hdrop, htake', hdrop', hne]
    omega

theorem exists_of_reference (h : reference s = some (r, n)) :
    r.Readable ∧ n = r.text.length ∧ ∃ t, s = r.text ++ t := by
  unfold reference at h
  split at h
  · rename_i s
    have hkey : ∀ c ∈ s.takeWhile isKeyChar, isKeyChar c = true := fun _ => List.mem_takeWhile_imp
    have hs : s.takeWhile isKeyChar ++ s.dropWhile isKeyChar = s := List.takeWhile_append_dropWhile
    simp only at h
    split at h
    · contradiction
    rename_i hne
    have hne : s.takeWhile isKeyChar ≠ [] := fun h0 => hne (by rw [h0]; rfl)
    split at h
    · rename_i t hdrop
      obtain ⟨rfl, rfl⟩ := Prod.mk.inj (Option.some.inj h)
      exact ⟨⟨hne, hkey, by simp⟩, by simp [Reference.text], t, by simp [Reference.text, ← hdrop, hs]⟩
    · rename_i rest hdrop
      have hrest : rest.takeWhile isDefaultChar ++ rest.dropWhile isDefaultChar = rest :=
        List.takeWhile_append_dropWhile
      split at h
      · rename_i t hdrop'
        obtain ⟨rfl, rfl⟩ := Prod.mk.inj (Option.some.inj h)
        refine ⟨⟨hne, hkey, ?_⟩, by simp [Reference.text]; omega, t, ?_⟩
        · rintro _ ⟨⟩ c hc
          exact List.mem_takeWhile_imp hc
        · simp [Reference.text, ← hdrop', hrest, ← hdrop, hs]
      · contradiction
    · contradiction
  · contradiction

/-- A placeholder is read at a text exactly when its own text stands there. -/
theorem reference_eq_some_iff :
    reference s = some (r, n) ↔ r.Readable ∧ n = r.text.length ∧ ∃ t, s = r.text ++ t := by
  constructor
  · exact exists_of_reference
  · rintro ⟨hr, rfl, t, rfl⟩
    exact reference_text_append hr t

/-- The text that a placeholder is read from. -/
def Reference.Spells (r : Reference) (m : List Char) : Prop := r.Readable ∧ m = r.text

theorem spelled_reference : Text.Spelled reference Reference.Spells where
  ne_nil := by
    rintro r _ ⟨-, rfl⟩
    exact r.text_ne_nil
  eq_some_iff := by
    intro s r n
    rw [reference_eq_some_iff]
    constructor
    · rintro ⟨hr, hn, t, rfl⟩
      exact ⟨_, ⟨hr, rfl⟩, hn, List.prefix_append _ t⟩
    · rintro ⟨_, ⟨hr, rfl⟩, hn, t, rfl⟩
      exact ⟨hr, hn, t, rfl⟩

/-- Induction on a text by the steps of a pass: a placeholder in front, or a character at which none
starts. -/
theorem pass_induction {P : List Char → Prop} (nil : P [])
    (found : ∀ r s, Reference.Readable r → P s → P (r.text ++ s))
    (plain : ∀ c s, reference (c :: s) = none → P s → P (c :: s)) (s : List Char) : P s := by
  induction s using Text.pieces_induction spelled_reference with
  | nil => exact nil
  | found r m s hm ih =>
      obtain ⟨hr, rfl⟩ := hm
      exact found r s hr ih
  | plain c s hnone ih => exact plain c s hnone ih

theorem pass_text_append (h : r.Readable) (s : List Char) :
    pass flat (r.text ++ s) = substitute flat r ++ pass flat s :=
  Text.replaceMatches_of_some (reference_text_append h s) r.text_ne_nil

theorem pass_cons (h : reference (c :: s) = none) : pass flat (c :: s) = c :: pass flat s :=
  Text.replaceMatches_of_none h

theorem reference_cons_of_ne (h : c ≠ '$') (s : List Char) : reference (c :: s) = none := by
  rw [reference]
  rintro _ heq
  exact h (List.cons.inj heq).1

theorem occurrences_text_append (h : r.Readable) (s : List Char) :
    Text.occurrences reference (r.text ++ s) = r :: Text.occurrences reference s :=
  Text.occurrences_of_some (reference_text_append h s) r.text_ne_nil

theorem pass_of_no_dollar (h : '$' ∉ w) (s : List Char) : pass flat (w ++ s) = w ++ pass flat s := by
  induction w with
  | nil => rfl
  | cons c w ih =>
      rw [List.mem_cons, not_or] at h
      rw [List.cons_append, pass_cons (reference_cons_of_ne (Ne.symm h.1) _), ih h.2,
        List.cons_append]

/-! ## Texts side by side -/

/-- Whether a text ends within what may become a placeholder. -/
def endsOpen : List Char → Bool
  | '$' :: '{' :: s => s.all isDefaultChar || endsOpen s
  | _ :: s => endsOpen s
  | [] => false

/-- A text that does not go on with a placeholder or an escape that stands before it. -/
def Detached (s : List Char) : Prop := ∀ c ∈ s.head?, c ≠ '$' ∧ c ≠ '{' ∧ c ≠ '\\'

theorem detached_nil : Detached [] := by simp [Detached]

theorem detached_cons : Detached (c :: s) ↔ c ≠ '$' ∧ c ≠ '{' ∧ c ≠ '\\' := by simp [Detached]

theorem Detached.append (hs : Detached s) (ht : Detached t) : Detached (s ++ t) := by
  cases s with
  | nil => exact ht
  | cons c s => exact hs

theorem endsOpen_cons (h : endsOpen (c :: s) = false) : endsOpen s = false := by
  unfold endsOpen at h
  split at h
  · rename_i s heq
    obtain ⟨rfl, rfl⟩ := List.cons.inj heq
    rw [Bool.or_eq_false_iff] at h
    simpa [endsOpen] using h.2
  · rename_i heq
    rwa [(List.cons.inj heq).2]
  · contradiction

theorem endsOpen_of_no_dollar (h : '$' ∉ w) (s : List Char) : endsOpen (w ++ s) = endsOpen s := by
  induction w with
  | nil => rfl
  | cons c w ih =>
      rw [List.mem_cons, not_or] at h
      rw [List.cons_append, endsOpen, ih h.2]
      rintro t rfl
      exact absurd rfl h.1

theorem endsOpen_append_left (h : endsOpen (s ++ t) = false) : endsOpen t = false := by
  induction s with
  | nil => exact h
  | cons c s ih => exact ih (endsOpen_cons h)

/-- A text that does not end within a placeholder holds all of a placeholder that begins in it. -/
theorem apart_of_endsOpen (hs : endsOpen s = false) (ht : ∀ c ∈ t.head?, c ≠ '{') :
    Text.Apart Reference.Spells s t := by
  rintro r m u w ⟨hr, rfl⟩ hu ⟨front, rfl⟩ hw hstart heq
  have hopen := endsOpen_append_left hs
  rw [Reference.text_eq] at heq
  match u, hu, heq with
  | [a], _, heq =>
      obtain ⟨-, rfl⟩ : '$' = a ∧ '{' :: (r.inside ++ ['}']) = w := by simpa using heq
      obtain ⟨v, rfl⟩ := hstart
      exact ht '{' rfl rfl
  | a :: b :: u, _, heq =>
      obtain ⟨rfl, rfl, hin⟩ : '$' = a ∧ '{' = b ∧ r.inside ++ ['}'] = u ++ w := by simpa using heq
      have hinside : u ++ w.dropLast = r.inside := by
        rw [← List.dropLast_append_of_ne_nil hw, ← hin, List.dropLast_concat]
      have hall : u.all isDefaultChar = true :=
        List.all_eq_true.2 fun c hc => hr.isDefaultChar_of_mem (hinside ▸ List.mem_append_left _ hc)
      simp [endsOpen, hall] at hopen

theorem pass_append (hs : endsOpen s = false) (ht : ∀ c ∈ t.head?, c ≠ '{') :
    pass flat (s ++ t) = pass flat s ++ pass flat t :=
  Text.replaceMatches_append spelled_reference (apart_of_endsOpen hs ht)

theorem Detached.pass (h : Detached s) : Detached (pass flat s) := by
  cases s with
  | nil => exact detached_nil
  | cons c s =>
      have hc := detached_cons.1 h
      rw [pass_cons (reference_cons_of_ne hc.1 s)]
      exact detached_cons.2 hc

theorem mask_cons (h : ¬ ['\\', '$', '{'] <+: c :: s) : mask (c :: s) = c :: mask s := by
  rw [mask]
  intro t hc ht
  subst hc ht
  exact h ⟨t, rfl⟩

theorem mask_cons_of_ne (h : c ≠ '\\') (s : List Char) : mask (c :: s) = c :: mask s := by
  refine mask_cons fun hstart => h ?_
  obtain ⟨t, ht⟩ := hstart
  exact (List.cons.inj ht).1.symm

theorem mask_of_no_slash (h : '\\' ∉ w) (s : List Char) : mask (w ++ s) = w ++ mask s := by
  induction w with
  | nil => rfl
  | cons c w ih =>
      rw [List.mem_cons, not_or] at h
      rw [List.cons_append, mask_cons_of_ne (Ne.symm h.1), ih h.2, List.cons_append]

theorem not_escaped_append (ht : ∀ c ∈ t.head?, c ≠ '$' ∧ c ≠ '{')
    (h : ¬ ['\\', '$', '{'] <+: c :: s) :
    ¬ ['\\', '$', '{'] <+: c :: (s ++ t) := by
  intro hstart
  match s with
  | [] =>
      obtain ⟨u, hu⟩ := hstart
      obtain ⟨-, rfl⟩ : '\\' = c ∧ '$' :: '{' :: u = t := by simpa using hu
      exact (ht '$' rfl).1 rfl
  | [a] =>
      obtain ⟨u, hu⟩ := hstart
      obtain ⟨-, -, rfl⟩ : '\\' = c ∧ '$' = a ∧ '{' :: u = t := by simpa using hu
      exact (ht '{' rfl).2 rfl
  | a :: b :: s =>
      refine h ?_
      simpa using hstart

theorem mask_append (ht : ∀ c ∈ t.head?, c ≠ '$' ∧ c ≠ '{') : mask (s ++ t) = mask s ++ mask t := by
  induction s using mask.induct with
  | case1 s ih => simp [mask, ih]
  | case2 c s h ih =>
      have hs : ¬ ['\\', '$', '{'] <+: c :: s := by
        rintro ⟨u, hu⟩
        obtain ⟨rfl, rfl⟩ := List.cons.inj hu
        exact h u rfl rfl
      rw [List.cons_append, mask_cons hs, mask_cons (not_escaped_append ht hs), ih, List.cons_append]
  | case3 => rfl

theorem Detached.mask (h : Detached s) : Detached (mask s) := by
  cases s with
  | nil => exact detached_nil
  | cons c s =>
      have hc := detached_cons.1 h
      rw [mask_cons_of_ne hc.2.2]
      exact detached_cons.2 hc

/-! ## Several passes -/

/-- A masked text after some passes. -/
def stage (flat : Properties) (n : Nat) (s : List Char) : List Char := Nat.repeat (pass flat) n (mask s)

theorem stage_zero (s : List Char) : stage flat 0 s = mask s := rfl

theorem stage_succ (n : Nat) (s : List Char) : stage flat (n + 1) s = pass flat (stage flat n s) := rfl

theorem Detached.stage (h : Detached s) (n : Nat) : Detached (stage flat n s) := by
  induction n with
  | zero => exact h.mask
  | succ n ih => exact ih.pass

theorem stage_append (hs : ∀ k < n, endsOpen (stage flat k s) = false) (ht : Detached t) :
    stage flat n (s ++ t) = stage flat n s ++ stage flat n t := by
  induction n with
  | zero => exact mask_append fun c hc => ⟨(ht c hc).1, (ht c hc).2.1⟩
  | succ n ih =>
      rw [stage_succ, ih fun k hk => hs k (Nat.lt_succ_of_lt hk),
        pass_append (hs n (Nat.lt_succ_self n)) fun c hc => (ht.stage n c hc).2.1]
      rfl

/-! ## Until nothing changes -/

theorem repeat_pass_succ (n : Nat) (s : List Char) :
    Nat.repeat (pass flat) (n + 1) s = Nat.repeat (pass flat) n (pass flat s) := by
  induction n with
  | zero => rfl
  | succ n ih => exact congrArg (pass flat) ih

theorem repeat_pass_eq_self (h : pass flat s = s) (n : Nat) : Nat.repeat (pass flat) n s = s := by
  induction n with
  | zero => rfl
  | succ n ih => rw [repeat_pass_succ, h, ih]

/-- The passes that are not made any more would change nothing. -/
theorem searchAgain_eq (n : Nat) (s : List Char) : searchAgain flat n s = Nat.repeat (pass flat) n s := by
  induction n generalizing s with
  | zero => rfl
  | succ n ih =>
      rw [searchAgain, repeat_pass_succ]
      by_cases hsettled : pass flat s = s
      · rw [if_pos hsettled, hsettled, repeat_pass_eq_self hsettled]
      · rw [if_neg hsettled, ih]

theorem resolveMasked_eq_stage (s : List Char) : resolveMasked flat s = stage flat maxPasses s :=
  searchAgain_eq maxPasses (mask s)

end LayeredConfig.Placeholder
