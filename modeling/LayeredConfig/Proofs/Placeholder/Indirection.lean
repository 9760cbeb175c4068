import LayeredConfig.Proofs.Placeholder.Expansion

/-!
# Texts reached through a placeholder

A placeholder takes one pass to become the text of its property, and the passes that are left go on with
that text as they would with the text itself, with one difference: escaped openings are masked before the
first pass only.  So a value without escapes is resolved through a placeholder as on its own, when one pass
less is enough for it; and an escape in a value is none, since its backslash is kept and the opening behind
it is searched like any other.

* `resolve_reference` — what a placeholder of a property is resolved to.
* `resolve_reference_escape`, `resolve_escape` — a value with an escape, through a placeholder and on its own.
* `resolve_reference_eq_iff` — when the two are the same.
* `not_resolved_like_value` — values with escapes are not resolved alike.
-/

namespace LayeredConfig.Placeholder

variable {flat : Properties} {c : Char} {n : Nat} {key value : String} {s t : List Char}

/-- The placeholder of a key. -/
def Reference.to (key : String) : Reference := ⟨key.toList, none⟩

/-- A key that a placeholder can name. -/
structure Nameable (key : String) : Prop where
  ne_nil : key.toList ≠ []
  chars : ∀ c ∈ key.toList, isKeyChar c = true
  trimmed : Text.trim key.toList = key.toList

instance : DecidablePred Nameable := fun key =>
  decidable_of_iff (key.toList ≠ [] ∧ key.toList.all isKeyChar = true ∧ Text.trim key.toList = key.toList)
    ⟨fun h => ⟨h.1, List.all_eq_true.1 h.2.1, h.2.2⟩, fun h => ⟨h.1, List.all_eq_true.2 h.2, h.3⟩⟩

/-- A text in which placeholders nest at most `n` deep: after `n` passes nothing is left to be replaced. -/
def NestsWithin (flat : Properties) (n : Nat) (s : List Char) : Prop :=
  pass flat (stage flat n s) = stage flat n s

instance (flat : Properties) (n : Nat) : DecidablePred (NestsWithin flat n) := fun s =>
  inferInstanceAs (Decidable (pass flat (stage flat n s) = stage flat n s))

theorem NestsWithin.stage_eq (h : NestsWithin flat (maxPasses - 1) s) :
    stage flat maxPasses s = stage flat (maxPasses - 1) s := by
  have hsucc : stage flat (maxPasses - 1 + 1) s = pass flat (stage flat (maxPasses - 1) s) :=
    stage_succ (maxPasses - 1) s
  rw [Nat.sub_add_cancel (by decide)] at hsucc
  exact hsucc.trans h

/-- In well formed texts placeholders nest as deep as the longest chain. -/
theorem nestsWithin_of_chains (hflat : WellFormedValues flat) (hs : WellFormed s)
    (hchains : ∀ rs, Chain flat s rs → rs.countP (isReplaced flat) ≤ n) : NestsWithin flat n s := by
  have hstage := wellFormed_stage hflat hs n
  have hsettled : Within flat (isReplaced flat) 0 (stage flat n s) := by
    rw [within_stage hflat hs, Nat.zero_add]
    exact (within_iff fun _ => isReplaced_of_isBound).2 hchains
  exact pass_of_settled hstage hsettled

/-! ## Placeholders of a property -/

theorem Nameable.readable (h : Nameable key) : (Reference.to key).Readable :=
  ⟨h.ne_nil, h.chars, by simp [Reference.to]⟩

theorem Nameable.bound? (h : Nameable key) (hvalue : flat.get? key = some (.string value)) :
    bound? flat (.to key) = some value.toList := by
  have hname : (Reference.to key).name = key := by
    rw [Reference.name, Reference.to, h.trimmed, String.ofList_toList]
  rw [Placeholder.bound?, hname, hvalue]
  rfl

theorem hasOpening_text (r : Reference) : hasOpening r.text = true :=
  hasOpening_eq_true_iff.2 ⟨[], r.inside ++ ['}'], by rw [r.text_eq]; rfl⟩

/-- The only opening of a placeholder stands at its start, where no backslash is before it. -/
theorem Reference.Readable.mask_text {r : Reference} (h : r.Readable) : mask r.text = r.text := by
  have hdollar : '$' ∉ '{' :: (r.inside ++ ['}']) := by
    simp only [List.mem_cons, List.mem_append, List.not_mem_nil, or_false, not_or]
    exact ⟨by decide, fun hmem => absurd (h.isDefaultChar_of_mem hmem) (by decide), by decide⟩
  refine mask_eq_self fun hpart => ?_
  rw [r.text_eq, List.infix_cons_iff] at hpart
  rcases hpart with hstart | hpart
  · exact absurd (List.cons_prefix_cons.1 hstart).1 (by decide)
  · exact hdollar (hpart.subset (by simp))

/-- A placeholder of a property is resolved by the passes that are left for the text of the property as it
stands. -/
theorem resolve_reference (hkey : Nameable key) (hvalue : flat.get? key = some (.string value)) :
    resolve flat (Reference.to key).text =
      unmask (Nat.repeat (pass flat) (maxPasses - 1) value.toList) := by
  have hpass : pass flat (Reference.to key).text = value.toList := by
    have happend : pass flat ((Reference.to key).text ++ []) =
        substitute flat (.to key) ++ pass flat [] := pass_text_append hkey.readable []
    rwa [List.append_nil, substitute_of_bound (hkey.bound? hvalue), show pass flat [] = [] from rfl,
      List.append_nil] at happend
  have hrepeat : Nat.repeat (pass flat) maxPasses (Reference.to key).text =
      Nat.repeat (pass flat) (maxPasses - 1) (pass flat (Reference.to key).text) :=
    repeat_pass_succ (maxPasses - 1) _
  rw [resolve, if_pos (hasOpening_text _), resolveMasked_eq_stage, stage, hkey.readable.mask_text, hrepeat,
    hpass]

/-! ## Values with escapes -/

theorem repeat_pass_append (hs : ∀ k < n, endsOpen (Nat.repeat (pass flat) k s) = false)
    (hc : c ≠ '$' ∧ c ≠ '{') (t : List Char) :
    Nat.repeat (pass flat) n (s ++ c :: t) =
      Nat.repeat (pass flat) n s ++ c :: Nat.repeat (pass flat) n t := by
  induction n with
  | zero => rfl
  | succ n ih =>
      have hhead : ∀ d ∈ (c :: Nat.repeat (pass flat) n t).head?, d ≠ '{' := by simpa using hc.2
      calc Nat.repeat (pass flat) (n + 1) (s ++ c :: t)
          = pass flat (Nat.repeat (pass flat) n s ++ c :: Nat.repeat (pass flat) n t) :=
            congrArg (pass flat) (ih fun k hk => hs k (Nat.lt_succ_of_lt hk))
        _ = pass flat (Nat.repeat (pass flat) n s) ++ pass flat (c :: Nat.repeat (pass flat) n t) :=
            pass_append (hs n (Nat.lt_succ_self n)) hhead
        _ = Nat.repeat (pass flat) (n + 1) s ++ c :: Nat.repeat (pass flat) (n + 1) t := by
            rw [pass_cons (reference_cons_of_ne hc.1 _)]
            rfl

section Escape

variable (hescape : ¬ ['\\', '$', '{'] <:+: s) (hs : Contained flat s)
include hescape hs

theorem repeat_pass_append_of_contained (hn : n ≤ maxPasses) (hc : c ≠ '$' ∧ c ≠ '{') (t : List Char) :
    Nat.repeat (pass flat) n (s ++ c :: t) = stage flat n s ++ c :: Nat.repeat (pass flat) n t := by
  have hstage (k : Nat) : Nat.repeat (pass flat) k s = stage flat k s := by
    rw [stage, mask_eq_self hescape]
  rw [repeat_pass_append (fun k hk => ?_) hc, hstage]
  rw [hstage]
  exact hs.closed k (Nat.lt_of_lt_of_le hk hn)

/-- Through a placeholder the backslash of an escape is kept, and the opening behind it is searched. -/
theorem resolve_reference_escape (hkey : Nameable key) (hvalue : flat.get? key = some (.string value))
    (hparts : value.toList = s ++ '\\' :: '$' :: '{' :: t) :
    resolve flat (Reference.to key).text = unmask (stage flat (maxPasses - 1) s) ++
      '\\' :: unmask (Nat.repeat (pass flat) (maxPasses - 1) ('$' :: '{' :: t)) := by
  rw [resolve_reference hkey hvalue, hparts,
    repeat_pass_append_of_contained hescape hs (Nat.sub_le _ _) (by decide), unmask_append,
    unmask_cons_of_ne (by decide)]

/-- On its own an escape is replaced by the opening that it stands for. -/
theorem resolve_escape (t : List Char) :
    resolve flat (s ++ '\\' :: '$' :: '{' :: t) = unmask (stage flat maxPasses s) ++
      '$' :: '{' :: unmask (stage flat maxPasses t) := by
  have hopening : hasOpening (s ++ '\\' :: '$' :: '{' :: t) = true :=
    hasOpening_eq_true_iff.2 ⟨s ++ ['\\'], t, by simp⟩
  have hmask : mask (s ++ '\\' :: '$' :: '{' :: t) = s ++ maskChar :: mask t := by
    rw [mask_append (by simp), mask_eq_self hescape, mask]
  rw [resolve, if_pos hopening, resolveMasked_eq_stage, stage, hmask,
    repeat_pass_append_of_contained hescape hs le_rfl (by decide), unmask_append, unmask_mask_cons]
  rfl

end Escape

/-- A value without escapes is resolved through a placeholder as on its own, unless it holds masks and
nothing else to be searched for; a value with an escape is not, when the text before it is resolved where it
stands. -/
theorem resolve_reference_eq_iff (hkey : Nameable key) (hvalue : flat.get? key = some (.string value)) :
    (¬ ['\\', '$', '{'] <:+: value.toList → NestsWithin flat (maxPasses - 1) value.toList →
      (resolve flat (Reference.to key).text = resolve flat value.toList ↔
        (maskChar ∈ value.toList → hasOpening value.toList = true))) ∧
    ∀ s t, value.toList = s ++ '\\' :: '$' :: '{' :: t → ¬ ['\\', '$', '{'] <:+: s →
      Contained flat s → NestsWithin flat (maxPasses - 1) s →
        resolve flat (Reference.to key).text ≠ resolve flat value.toList := by
  constructor
  · intro hescape hnests
    have hreference : resolve flat (Reference.to key).text =
        unmask (stage flat (maxPasses - 1) value.toList) := by
      rw [resolve_reference hkey hvalue, stage, mask_eq_self hescape]
    rw [hreference]
    cases hopening : hasOpening value.toList with
    | true =>
        have hlast : resolveMasked flat value.toList = stage flat (maxPasses - 1) value.toList := by
          rw [resolveMasked_eq_stage, hnests.stage_eq]
        rw [resolve, if_pos hopening, hlast]
        exact ⟨fun _ _ => rfl, fun _ => rfl⟩
    | false =>
        rw [resolve, if_neg (by simp [hopening]), stage_eq_self hopening, unmask_eq_self_iff]
        simp
  · intro s t hparts hescape hs hnests
    rw [resolve_reference_escape hescape hs hkey hvalue hparts, hparts, resolve_escape hescape hs,
      hnests.stage_eq]
    intro heq
    have hheads := (List.cons.inj (List.append_cancel_left heq)).1
    exact absurd hheads (by decide)

/-- Properties for a letter. -/
def letterProperties : Properties := .ofList [
  ("user", .string "Ada"), ("greeting", .string "Dear ${user}, ${closing:bye}")]

/-- A property that holds an escaped placeholder of another one. -/
def escapedProperties : Properties := .ofList [("a", .string "1"), ("b", .string "${a}: \\${a}")]

theorem resolve_reference_eq_iff_letter :
    Nameable "greeting" ∧ Nameable "b" ∧
      resolve letterProperties (Reference.to "greeting").text =
        resolve letterProperties "Dear ${user}, ${closing:bye}".toList ∧
      resolve escapedProperties (Reference.to "b").text ≠
        resolve escapedProperties "${a}: \\${a}".toList := by
  have hgreeting : Nameable "greeting" := by decide
  have hb : Nameable "b" := by decide
  have hvalue : letterProperties.get? "greeting" = some (.string "Dear ${user}, ${closing:bye}") := by rfl
  have hescaped : escapedProperties.get? "b" = some (.string "${a}: \\${a}") := by rfl
  have hnests : NestsWithin letterProperties (maxPasses - 1) "Dear ${user}, ${closing:bye}".toList :=
    nestsWithin_of_chains (by decide) (by decide) ((within_iff fun _ => isReplaced_of_isBound).1 (by decide))
  have hsame := (resolve_reference_eq_iff hgreeting hvalue).1 (by decide) hnests
  have hother := (resolve_reference_eq_iff hb hescaped).2 "${a}: ".toList "a\x7d".toList (by decide)
    (by decide) (by decide) (by decide)
  exact ⟨hgreeting, hb, hsame.2 (by decide), hother⟩

/-- Properties between which references go round in no circle. -/
def Acyclic (flat : Properties) : Prop :=
  ∃ n, ∀ e ∈ flat.entries, ∀ text ∈ e.2.plainText?, ∀ rs, Chain flat text rs → rs.length ≤ n

/-- The placeholder behind an escape in a value is replaced, where the value on its own shows it. -/
theorem not_resolved_like_value :
    ¬ ∀ (flat : Properties) (key value : String), Acyclic flat → Nameable key →
      flat.get? key = some (.string value) → NestsWithin flat 9 value.toList →
        (∀ rs, Chain flat value.toList rs → rs.length ≤ 9) →
          resolve flat (Reference.to key).text = resolve flat value.toList := by
  intro h
  have hacyclic : Acyclic escapedProperties := by
    refine ⟨1, fun e he text htext => within_true_iff.1 ?_⟩
    revert e text
    decide
  have hchains : ∀ rs, Chain escapedProperties "${a}: \\${a}".toList rs → rs.length ≤ 9 :=
    within_true_iff.1 (by decide)
  have hsame := h escapedProperties "b" "${a}: \\${a}" hacyclic (by decide) (by rfl) (by decide) hchains
  exact absurd hsame (by decide)

end LayeredConfig.Placeholder
