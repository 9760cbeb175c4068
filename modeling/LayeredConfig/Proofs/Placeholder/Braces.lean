import LayeredConfig.Proofs.Placeholder.Containment

/-!
# Balanced braces

A text of which every brace is closed again stays so while its placeholders are replaced by such texts.
It never ends within a placeholder, so that it is resolved where it stands.

* `openBraces` — the braces that a text leaves open.
* `openBraces_pass_le` — a pass leaves no more of them open.
* `contained_of_balanced` — balanced texts do not mix with the text around them.
-/

namespace LayeredConfig.Placeholder

variable {flat : Properties} {c : Char} {k l n : Nat} {s t : List Char}

/-- How many braces are open behind a character; one that closes nothing is passed over. -/
def braceStep (k : Nat) (c : Char) : Nat := if c = '{' then k + 1 else if c = '}' then k - 1 else k

/-- How many braces are open behind a text. -/
def openBraces (k : Nat) (s : List Char) : Nat := s.foldl braceStep k

/-- A text that closes every brace that it opens. -/
def Balanced (s : List Char) : Prop := openBraces 0 s = 0

instance : DecidablePred Balanced := fun s => inferInstanceAs (Decidable (openBraces 0 s = 0))

theorem openBraces_cons (k : Nat) (c : Char) (s : List Char) :
    openBraces k (c :: s) = openBraces (braceStep k c) s := rfl

theorem openBraces_append (k : Nat) (s t : List Char) :
    openBraces k (s ++ t) = openBraces (openBraces k s) t := List.foldl_append

theorem braceStep_mono (h : k ≤ l) : braceStep k c ≤ braceStep l c := by
  unfold braceStep
  split_ifs <;> omega

theorem braceStep_add_le (k l : Nat) (c : Char) : braceStep (k + l) c ≤ k + braceStep l c := by
  unfold braceStep
  split_ifs <;> omega

theorem openBraces_mono (h : k ≤ l) : openBraces k s ≤ openBraces l s := by
  induction s generalizing k l with
  | nil => exact h
  | cons c s ih => exact ih (braceStep_mono h)

theorem openBraces_add_le (k l : Nat) (s : List Char) :
    openBraces (k + l) s ≤ k + openBraces l s := by
  induction s generalizing l with
  | nil => exact le_rfl
  | cons c s ih => exact (openBraces_mono (braceStep_add_le k l c)).trans (ih (braceStep l c))

theorem Balanced.openBraces_le (h : Balanced s) (k : Nat) : openBraces k s ≤ k := by
  have := openBraces_add_le k 0 s
  rwa [h, Nat.add_zero] at this

theorem openBraces_of_isDefaultChar (h : ∀ c ∈ s, isDefaultChar c = true) (k : Nat) :
    openBraces k s = k := by
  induction s with
  | nil => rfl
  | cons c s ih =>
      obtain ⟨hc, hs⟩ := List.forall_mem_cons.1 h
      have hstep : braceStep k c = k := by
        simp only [isDefaultChar, Bool.and_eq_true, decide_eq_true_eq] at hc
        rw [braceStep, if_neg hc.1.2, if_neg hc.2]
      rw [openBraces_cons, hstep, ih hs]

theorem Reference.Readable.openBraces_text {r : Reference} (h : r.Readable) (k : Nat) :
    openBraces k r.text = k := by
  have hinside := openBraces_of_isDefaultChar (fun _ => h.isDefaultChar_of_mem) (k + 1)
  rw [r.text_eq, openBraces_cons, openBraces_cons, openBraces_append]
  change openBraces (openBraces (k + 1) r.inside) ['}'] = k
  rw [hinside]
  rfl

theorem openBraces_substitute_le {r : Reference} (h : r.Readable)
    (hbound : ∀ text ∈ bound? flat r, Balanced text) (k : Nat) :
    openBraces k (substitute flat r) ≤ k := by
  unfold substitute
  split
  · rename_i text htext
    exact (hbound text htext).openBraces_le k
  · cases hfallback : r.fallback with
    | none => exact (h.openBraces_text k).le
    | some fallback =>
        exact (openBraces_of_isDefaultChar (h.fallback_chars fallback hfallback) k).le

/-- A pass leaves no more braces open. -/
theorem openBraces_pass_le (hbound : ∀ r, ∀ text ∈ bound? flat r, Balanced text) (k : Nat)
    (s : List Char) : openBraces k (pass flat s) ≤ openBraces k s := by
  induction s using pass_induction generalizing k with
  | nil => exact le_rfl
  | found r s hr ih =>
      rw [pass_text_append hr, openBraces_append, openBraces_append, hr.openBraces_text]
      exact (ih _).trans (openBraces_mono (openBraces_substitute_le hr (hbound r) k))
  | plain c s hnone ih =>
      rw [pass_cons hnone]
      exact ih (braceStep k c)

theorem openBraces_mask_le (k : Nat) (s : List Char) : openBraces k (mask s) ≤ openBraces k s := by
  induction s using mask.induct generalizing k with
  | case1 s ih =>
      rw [mask]
      exact (ih k).trans (openBraces_mono (Nat.le_succ k))
  | case2 c s h ih =>
      rw [mask]
      · exact ih (braceStep k c)
      · exact h
  | case3 => exact le_rfl

theorem openBraces_pos (h : endsOpen s = true) (k : Nat) : 0 < openBraces k s := by
  induction s using endsOpen.induct generalizing k with
  | case1 s ih =>
      rw [endsOpen, Bool.or_eq_true] at h
      rcases h with hall | hopen
      · have hinside := openBraces_of_isDefaultChar (List.all_eq_true.1 hall) (k + 1)
        have hcons : openBraces k ('$' :: '{' :: s) = openBraces (k + 1) s := rfl
        omega
      · exact ih hopen (k + 1)
  | case2 c s hopening ih =>
      rw [endsOpen] at h
      · exact ih h (braceStep k c)
      · exact hopening
  | case3 => simp [endsOpen] at h

theorem balanced_stage (hbound : ∀ r, ∀ text ∈ bound? flat r, Balanced text) (hs : Balanced s)
    (n : Nat) : Balanced (stage flat n s) := by
  induction n with
  | zero => exact Nat.eq_zero_of_le_zero ((openBraces_mask_le 0 s).trans hs.le)
  | succ n ih => exact Nat.eq_zero_of_le_zero ((openBraces_pass_le hbound 0 _).trans ih.le)

/-- Balanced texts are resolved where they stand when what they are replaced by is balanced. -/
theorem contained_of_balanced (hbound : ∀ r, ∀ text ∈ bound? flat r, Balanced text)
    (hs : Balanced s) (hmask : maskChar ∉ s) : Contained flat s where
  unmasked := fun hmem => absurd hmem hmask
  closed := by
    intro n _
    rw [← Bool.not_eq_true]
    intro hopen
    have hpos := openBraces_pos hopen 0
    rw [balanced_stage hbound hs n] at hpos
    exact absurd hpos (Nat.lt_irrefl 0)

end LayeredConfig.Placeholder
