import LayeredConfig.Proofs.Placeholder.Passes

/-!
# Chains of references

A placeholder leads to the text of its property, which may hold further placeholders.  How far this goes
on from a text is bounded by the chains of references that start in it, each of them but the last bound.

* `Chain` — what is visited one after another.
* `Within` — the same bound by recursion on it, so that it can be computed.
* `within_iff` — the two agree.
-/

namespace LayeredConfig.Placeholder

variable {flat : Properties} {p : Reference → Bool} {r : Reference} {rs : List Reference} {n : Nat}
variable {s v : List Char}

/-- Whether a placeholder has a property, one that is not null. -/
def isBound (flat : Properties) (r : Reference) : Bool := (bound? flat r).isSome

/-- Whether something else is written for a placeholder, the text of its property or its default. -/
def isReplaced (flat : Properties) (r : Reference) : Bool := isBound flat r || r.fallback.isSome

/-- Placeholders of which the first one stands in a text, and each further one in the text that the one
before it is bound to. -/
inductive Chain (flat : Properties) : List Char → List Reference → Prop where
  | single {s : List Char} {r : Reference} (hr : r ∈ Text.occurrences reference s) : Chain flat s [r]
  | cons {s v : List Char} {r : Reference} {rs : List Reference}
      (hr : r ∈ Text.occurrences reference s) (hv : bound? flat r = some v) (hrs : Chain flat v rs) :
      Chain flat s (r :: rs)

/-- At most so many placeholders of a kind can be visited one after another. -/
def Within (flat : Properties) (p : Reference → Bool) : Nat → List Char → Prop
  | 0, s => ∀ r ∈ Text.occurrences reference s, p r = false
  | n + 1, s => ∀ r ∈ Text.occurrences reference s, ∀ v ∈ bound? flat r, Within flat p n v

instance Within.decidable (flat : Properties) (p : Reference → Bool) :
    ∀ (n : Nat) (s : List Char), Decidable (Within flat p n s)
  | 0, s => inferInstanceAs (Decidable (∀ r ∈ Text.occurrences reference s, p r = false))
  | n + 1, s =>
    have := Within.decidable flat p n
    inferInstanceAs
      (Decidable (∀ r ∈ Text.occurrences reference s, ∀ v ∈ bound? flat r, Within flat p n v))

theorem isReplaced_of_isBound (h : isBound flat r = true) : isReplaced flat r = true := by
  rw [isReplaced, h, Bool.true_or]

theorem isReplaced_eq_false_iff : isReplaced flat r = false ↔ bound? flat r = none ∧ r.fallback = none := by
  simp [isReplaced, isBound]

theorem isBound_eq_true_iff : isBound flat r = true ↔ ∃ v, bound? flat r = some v :=
  Option.isSome_iff_exists

theorem Chain.countP_le (hp : ∀ r, isBound flat r = true → p r = true) (h : Chain flat s rs)
    (hs : Within flat p n s) : rs.countP p ≤ n := by
  induction h generalizing n with
  | @single s r hr =>
      cases n with
      | zero => simp [hs r hr]
      | succ n =>
          have hlength : [r].countP p ≤ 1 := List.countP_le_length
          omega
  | @cons s v r rs hr hv hrs ih =>
      have hbound : p r = true := hp r (isBound_eq_true_iff.2 ⟨v, hv⟩)
      cases n with
      | zero =>
          rw [hs r hr] at hbound
          contradiction
      | succ n =>
          rw [List.countP_cons_of_pos hbound]
          exact Nat.succ_le_succ (ih (hs r hr v hv))

/-- The bound by recursion is the bound on all chains. -/
theorem within_iff (hp : ∀ r, isBound flat r = true → p r = true) :
    Within flat p n s ↔ ∀ rs, Chain flat s rs → rs.countP p ≤ n := by
  refine ⟨fun hs rs hrs => hrs.countP_le hp hs, fun h => ?_⟩
  induction n generalizing s with
  | zero =>
      intro r hr
      have hcount := h [r] (.single hr)
      simpa using hcount
  | succ n ih =>
      intro r hr v hv
      refine ih fun rs hrs => ?_
      have hcount := h (r :: rs) (.cons hr hv hrs)
      rw [List.countP_cons_of_pos (hp r (isBound_eq_true_iff.2 ⟨v, hv⟩))] at hcount
      exact Nat.le_of_succ_le_succ hcount

/-- How long the chains of a text are can be computed as well. -/
theorem within_true_iff : Within flat (fun _ => true) n s ↔ ∀ rs, Chain flat s rs → rs.length ≤ n := by
  rw [within_iff fun _ _ => rfl]
  simp only [List.countP_true]

end LayeredConfig.Placeholder
