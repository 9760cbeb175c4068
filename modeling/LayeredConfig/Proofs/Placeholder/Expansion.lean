import LayeredConfig.Proofs.Placeholder.Chains
import LayeredConfig.Proofs.Placeholder.Surroundings
import LayeredConfig.Proofs.Document.Flat
import LayeredConfig.Proofs.OrderedMap

/-!
# Passes and recursive expansion

A text is expanded by writing for each of its placeholders the expansion of the text that it is bound to, or
its default, or the placeholder itself.  Passes search the whole text again and again instead.  Where
placeholders are well formed nothing that is written for one of them joins with the text around it, and a
pass takes the first placeholder from every chain; so the passes give the expansion exactly when there are
as many of them as the longest chain has placeholders that are replaced.

* `WellFormed` — texts of literal characters and placeholders.
* `Expands` — the recursive expansion, which is unique (`Expands.unique`).
* `expands_pass`, `within_pass` — one pass keeps the expansion and shortens every chain by one.
* `expands_stage`, `within_stage` — the same for any number of passes.
* `expands_iff_resolve` — when the resolved text is the expansion.
* `not_expands_of_bound` — that a chain has ten bound placeholders is not enough.
-/

namespace LayeredConfig.Placeholder

variable {flat : Properties} {c : Char} {n m : Nat} {r : Reference} {s t u v w : List Char}

/-! ## Well formed texts -/

/-- Characters that stand for themselves in every text and at every stage. -/
def isLiteralChar (c : Char) : Bool := isPlainChar c && c ≠ maskChar

/-- A text of characters that stand for themselves. -/
def Literal (s : List Char) : Prop := ∀ c ∈ s, isLiteralChar c = true

instance : DecidablePred Literal := fun s => decidable_of_iff (s.all isLiteralChar = true) List.all_eq_true

/-- A placeholder of a literal key, without a colon, and possibly a literal default. -/
structure Reference.Simple (r : Reference) : Prop where
  key_ne_nil : r.key ≠ []
  key_literal : Literal r.key
  no_colon : ':' ∉ r.key
  fallback_literal : ∀ fallback ∈ r.fallback, Literal fallback

instance : DecidablePred Reference.Simple := fun r =>
  decidable_of_iff (r.key ≠ [] ∧ Literal r.key ∧ ':' ∉ r.key ∧ ∀ fallback ∈ r.fallback, Literal fallback)
    ⟨fun h => ⟨h.1, h.2.1, h.2.2.1, h.2.2.2⟩, fun h => ⟨h.1, h.2, h.3, h.4⟩⟩

/-- Literal characters and well formed placeholders, one behind the other. -/
inductive WellFormed : List Char → Prop where
  | nil : WellFormed []
  | literal {c : Char} {s : List Char} (hc : isLiteralChar c = true) (hs : WellFormed s) :
      WellFormed (c :: s)
  | placeholder {r : Reference} {s : List Char} (hr : r.Simple) (hs : WellFormed s) :
      WellFormed (r.text ++ s)

/-- The pieces that a well formed text is divided into. -/
def WellFormedPiece : Text.Piece Reference → Prop
  | .plain c => isLiteralChar c = true
  | .found r => r.Simple

instance : DecidablePred WellFormedPiece
  | .plain c => inferInstanceAs (Decidable (isLiteralChar c = true))
  | .found r => inferInstanceAs (Decidable r.Simple)

theorem isLiteralChar_iff :
    isLiteralChar c = true ↔ c ≠ '$' ∧ c ≠ '{' ∧ c ≠ '}' ∧ c ≠ '\\' ∧ c ≠ maskChar := by
  rw [isLiteralChar, Bool.and_eq_true, isPlainChar_iff, decide_eq_true_eq]
  simp only [and_assoc]

theorem Reference.Simple.readable (h : r.Simple) : r.Readable where
  key_ne_nil := h.key_ne_nil
  key_chars := by
    intro c hc
    obtain ⟨hdollar, hopen, hclose, -⟩ := isLiteralChar_iff.1 (h.key_literal c hc)
    have hcolon : c ≠ ':' := by
      rintro rfl
      exact h.no_colon hc
    simp [isKeyChar, isDefaultChar, hdollar, hopen, hclose, hcolon]
  fallback_chars := by
    intro fallback hfallback c hc
    obtain ⟨hdollar, hopen, hclose, -⟩ := isLiteralChar_iff.1 (h.fallback_literal fallback hfallback c hc)
    simp [isDefaultChar, hdollar, hopen, hclose]

theorem reference_literal_cons (hc : isLiteralChar c = true) (s : List Char) : reference (c :: s) = none :=
  reference_cons_of_ne (isLiteralChar_iff.1 hc).1 s

theorem pieces_literal_cons (hc : isLiteralChar c = true) (s : List Char) :
    Text.pieces reference (c :: s) = .plain c :: Text.pieces reference s :=
  Text.pieces_of_none (reference_literal_cons hc s)

theorem pieces_text_append (hr : r.Readable) (s : List Char) :
    Text.pieces reference (r.text ++ s) = .found r :: Text.pieces reference s :=
  Text.pieces_of_some (reference_text_append hr s) r.text_ne_nil

theorem pieces_text (hr : r.Readable) : Text.pieces reference r.text = [.found r] := by
  have hpieces := pieces_text_append hr []
  rwa [List.append_nil] at hpieces

/-- A text is well formed when all that it is divided into is. -/
theorem wellFormed_iff : WellFormed s ↔ ∀ x ∈ Text.pieces reference s, WellFormedPiece x := by
  constructor
  · intro h
    induction h with
    | nil => simp [Text.pieces, Text.piecesAfter]
    | literal hc hs ih =>
        rw [pieces_literal_cons hc, List.forall_mem_cons]
        exact ⟨hc, ih⟩
    | placeholder hr hs ih =>
        rw [pieces_text_append hr.readable, List.forall_mem_cons]
        exact ⟨hr, ih⟩
  · intro h
    induction s using pass_induction with
    | nil => exact .nil
    | found r s hr ih =>
        rw [pieces_text_append hr, List.forall_mem_cons] at h
        exact .placeholder h.1 (ih h.2)
    | plain c s hnone ih =>
        rw [Text.pieces_of_none hnone, List.forall_mem_cons] at h
        exact .literal h.1 (ih h.2)

instance : DecidablePred WellFormed := fun _ => decidable_of_iff _ wellFormed_iff.symm

theorem WellFormed.append (hs : WellFormed s) (ht : WellFormed t) : WellFormed (s ++ t) := by
  induction hs with
  | nil => exact ht
  | literal hc _ ih => exact .literal hc ih
  | placeholder hr _ ih =>
      rw [List.append_assoc]
      exact .placeholder hr ih

theorem Literal.wellFormed (h : Literal s) : WellFormed s := by
  induction s with
  | nil => exact .nil
  | cons c s ih =>
      obtain ⟨hc, hs⟩ := List.forall_mem_cons.1 h
      exact .literal hc (ih hs)

theorem Reference.Simple.text (h : r.Simple) : WellFormed r.text := by
  have htext : WellFormed (r.text ++ []) := .placeholder h .nil
  rwa [List.append_nil] at htext

/-- The placeholders of a text one behind the other. -/
theorem WellFormed.pieces_append (hs : WellFormed s) (t : List Char) :
    Text.pieces reference (s ++ t) = Text.pieces reference s ++ Text.pieces reference t := by
  induction hs with
  | nil => rfl
  | literal hc _ ih =>
      rw [List.cons_append, pieces_literal_cons hc, pieces_literal_cons hc, ih, List.cons_append]
  | placeholder hr _ ih =>
      rw [List.append_assoc, pieces_text_append hr.readable, pieces_text_append hr.readable, ih,
        List.cons_append]

theorem WellFormed.occurrences_append (hs : WellFormed s) (t : List Char) :
    Text.occurrences reference (s ++ t) = Text.occurrences reference s ++ Text.occurrences reference t := by
  rw [Text.occurrences, hs.pieces_append, List.filterMap_append]
  rfl

theorem occurrences_literal_cons (hc : isLiteralChar c = true) (s : List Char) :
    Text.occurrences reference (c :: s) = Text.occurrences reference s :=
  Text.occurrences_of_none (reference_literal_cons hc s)

theorem Literal.occurrences_eq_nil (h : Literal s) : Text.occurrences reference s = [] := by
  induction s with
  | nil => rfl
  | cons c s ih =>
      obtain ⟨hc, hs⟩ := List.forall_mem_cons.1 h
      rw [occurrences_literal_cons hc, ih hs]

theorem occurrences_text (hr : r.Readable) : Text.occurrences reference r.text = [r] := by
  rw [Text.occurrences, pieces_text hr]
  rfl

/-- No text that a placeholder is bound to is anything but well formed. -/
def WellFormedValues (flat : Properties) : Prop :=
  ∀ e ∈ flat.entries, ∀ text ∈ e.2.plainText?, WellFormed text

instance : DecidablePred WellFormedValues := fun flat =>
  inferInstanceAs (Decidable (∀ e ∈ flat.entries, ∀ text ∈ e.2.plainText?, WellFormed text))

theorem WellFormedValues.of_bound (h : WellFormedValues flat) (hv : bound? flat r = some v) :
    WellFormed v := by
  obtain ⟨value, hvalue, htext⟩ := Option.bind_eq_some_iff.1 hv
  exact h _ (OrderedMap.mem_entries_iff.2 hvalue) v htext

/-! ## What is written for a placeholder -/

theorem substitute_of_bound (hv : bound? flat r = some v) : substitute flat r = v := by
  rw [substitute, hv]

theorem substitute_of_unbound (hv : bound? flat r = none) :
    substitute flat r = r.fallback.getD r.text := by
  rw [substitute, hv]

theorem WellFormedValues.substitute (hflat : WellFormedValues flat) (hr : r.Simple) :
    WellFormed (substitute flat r) := by
  cases hv : bound? flat r with
  | some v =>
      rw [substitute_of_bound hv]
      exact hflat.of_bound hv
  | none =>
      rw [substitute_of_unbound hv]
      cases hfallback : r.fallback with
      | some fallback => exact (hr.fallback_literal fallback hfallback).wellFormed
      | none => exact hr.text

theorem wellFormed_pass (hflat : WellFormedValues flat) (hs : WellFormed s) : WellFormed (pass flat s) := by
  induction hs with
  | nil => exact .nil
  | literal hc _ ih =>
      rw [pass_cons (reference_literal_cons hc _)]
      exact .literal hc ih
  | placeholder hr _ ih =>
      rw [pass_text_append hr.readable]
      exact (hflat.substitute hr).append ih

theorem WellFormed.not_mem (hs : WellFormed s) : '\\' ∉ s ∧ maskChar ∉ s := by
  have hliteral {w : List Char} (hw : Literal w) : '\\' ∉ w ∧ maskChar ∉ w :=
    ⟨fun hmem => absurd (hw _ hmem) (by decide), fun hmem => absurd (hw _ hmem) (by decide)⟩
  induction hs with
  | nil => simp
  | @literal c s hc _ ih =>
      obtain ⟨hslash, hmask⟩ := hliteral (List.forall_mem_singleton.2 hc)
      rw [List.mem_singleton] at hslash hmask
      simp [hslash, hmask, ih.1, ih.2]
  | @placeholder r s hr _ ih =>
      have hinside : '\\' ∉ r.inside ∧ maskChar ∉ r.inside := by
        obtain ⟨hslash, hmask⟩ := hliteral hr.key_literal
        obtain ⟨key, _ | fallback⟩ := r
        · exact ⟨hslash, hmask⟩
        · obtain ⟨hslash', hmask'⟩ := hliteral (hr.fallback_literal fallback rfl)
          simp only [Reference.inside, List.mem_append, List.mem_cons, not_or]
          exact ⟨⟨hslash, by decide, hslash'⟩, hmask, by decide, hmask'⟩
      rw [r.text_eq]
      simp only [List.cons_append, List.mem_cons, List.mem_append, List.not_mem_nil, or_false, not_or]
      exact ⟨⟨by decide, by decide, ⟨hinside.1, by decide⟩, ih.1⟩,
        by decide, by decide, ⟨hinside.2, by decide⟩, ih.2⟩

theorem stage_zero_eq_self (hs : WellFormed s) : stage flat 0 s = s :=
  mask_eq_self fun hpart => hs.not_mem.1 (hpart.subset List.mem_cons_self)

theorem wellFormed_stage (hflat : WellFormedValues flat) (hs : WellFormed s) (n : Nat) :
    WellFormed (stage flat n s) := by
  induction n with
  | zero => rwa [stage_zero_eq_self hs]
  | succ n ih => exact wellFormed_pass hflat ih

theorem resolve_eq_stage (hflat : WellFormedValues flat) (hs : WellFormed s) :
    resolve flat s = stage flat maxPasses s := by
  rw [resolve_eq_unmask fun hmem => absurd hmem hs.not_mem.2, resolveMasked_eq_stage]
  exact unmask_eq_self (wellFormed_stage hflat hs maxPasses).not_mem.2

/-! ## Expansion -/

/-- Some pieces with every placeholder expanded: the expansion of the text that it is bound to, else its
default, else the placeholder itself. -/
inductive ExpandsPieces (flat : Properties) : List (Text.Piece Reference) → List Char → Prop where
  | nil : ExpandsPieces flat [] []
  | plain {xs : List (Text.Piece Reference)} {t : List Char} (c : Char) (ht : ExpandsPieces flat xs t) :
      ExpandsPieces flat (.plain c :: xs) (c :: t)
  | bound {xs : List (Text.Piece Reference)} {r : Reference} {t v w : List Char}
      (hv : bound? flat r = some v) (hw : ExpandsPieces flat (Text.pieces reference v) w)
      (ht : ExpandsPieces flat xs t) : ExpandsPieces flat (.found r :: xs) (w ++ t)
  | unbound {xs : List (Text.Piece Reference)} {r : Reference} {t : List Char}
      (hv : bound? flat r = none) (ht : ExpandsPieces flat xs t) :
      ExpandsPieces flat (.found r :: xs) (r.fallback.getD r.text ++ t)

/-- A text with every placeholder expanded. -/
def Expands (flat : Properties) (s t : List Char) : Prop :=
  ExpandsPieces flat (Text.pieces reference s) t

theorem ExpandsPieces.unique {xs : List (Text.Piece Reference)} (h : ExpandsPieces flat xs t)
    (h' : ExpandsPieces flat xs u) : t = u := by
  induction h generalizing u with
  | nil =>
      cases h'
      rfl
  | plain c _ ih =>
      cases h' with
      | plain _ h' => rw [ih h']
  | bound hv _ _ ihw iht =>
      cases h' with
      | bound hv' hw' ht' =>
          obtain rfl := Option.some.inj (hv.symm.trans hv')
          rw [ihw hw', iht ht']
      | unbound hv' _ =>
          rw [hv] at hv'
          contradiction
  | unbound hv _ ih =>
      cases h' with
      | bound hv' _ _ =>
          rw [hv] at hv'
          contradiction
      | unbound _ ht' => rw [ih ht']

theorem Expands.unique (h : Expands flat s t) (h' : Expands flat s u) : t = u :=
  ExpandsPieces.unique h h'

theorem expandsPieces_append {xs ys : List (Text.Piece Reference)} :
    ExpandsPieces flat (xs ++ ys) t ↔
      ∃ v w, t = v ++ w ∧ ExpandsPieces flat xs v ∧ ExpandsPieces flat ys w := by
  constructor
  · intro h
    induction xs generalizing t with
    | nil => exact ⟨[], t, rfl, .nil, h⟩
    | cons x xs ih =>
        cases h with
        | plain c ht =>
            obtain ⟨v, w, rfl, hxs, hys⟩ := ih ht
            exact ⟨c :: v, w, rfl, .plain c hxs, hys⟩
        | bound hv hw ht =>
            obtain ⟨v, w, rfl, hxs, hys⟩ := ih ht
            exact ⟨_ ++ v, w, (List.append_assoc _ _ _).symm, .bound hv hw hxs, hys⟩
        | unbound hv ht =>
            obtain ⟨v, w, rfl, hxs, hys⟩ := ih ht
            exact ⟨_ ++ v, w, (List.append_assoc _ _ _).symm, .unbound hv hxs, hys⟩
  · rintro ⟨v, w, rfl, hxs, hys⟩
    induction hxs with
    | nil => exact hys
    | plain c _ ih => exact .plain c ih
    | bound hv hw _ _ ih =>
        rw [List.append_assoc]
        exact .bound hv hw ih
    | unbound hv _ ih =>
        rw [List.append_assoc]
        exact .unbound hv ih

theorem WellFormed.expands_append (hs : WellFormed s) :
    Expands flat (s ++ t) u ↔ ∃ v w, u = v ++ w ∧ Expands flat s v ∧ Expands flat t w := by
  rw [Expands, hs.pieces_append]
  exact expandsPieces_append

theorem expands_nil : Expands flat [] t ↔ t = [] := by
  constructor
  · intro h
    cases h
    rfl
  · rintro rfl
    exact .nil

theorem expands_literal_cons (hc : isLiteralChar c = true) :
    Expands flat (c :: s) t ↔ ∃ u, t = c :: u ∧ Expands flat s u := by
  rw [Expands, pieces_literal_cons hc]
  constructor
  · intro h
    cases h with
    | plain _ h => exact ⟨_, rfl, h⟩
  · rintro ⟨u, rfl, h⟩
    exact .plain c h

theorem Literal.expands_iff (h : Literal s) : Expands flat s t ↔ t = s := by
  induction s generalizing t with
  | nil => exact expands_nil
  | cons c s ih =>
      obtain ⟨hc, hs⟩ := List.forall_mem_cons.1 h
      simp [expands_literal_cons hc, ih hs]

theorem Reference.Simple.expands_of_bound (hr : r.Simple) (hv : bound? flat r = some v) :
    Expands flat r.text t ↔ Expands flat v t := by
  rw [Expands, pieces_text hr.readable]
  constructor
  · intro h
    cases h with
    | bound hv' hw ht =>
        obtain rfl := Option.some.inj (hv.symm.trans hv')
        cases ht
        rwa [List.append_nil]
    | unbound hv' _ =>
        rw [hv] at hv'
        contradiction
  · intro h
    have hbound := ExpandsPieces.bound hv h .nil
    rwa [List.append_nil] at hbound

theorem Reference.Simple.expands_of_unbound (hr : r.Simple) (hv : bound? flat r = none) :
    Expands flat r.text t ↔ t = r.fallback.getD r.text := by
  rw [Expands, pieces_text hr.readable]
  constructor
  · intro h
    cases h with
    | bound hv' _ _ =>
        rw [hv] at hv'
        contradiction
    | unbound _ ht =>
        cases ht
        rw [List.append_nil]
  · rintro rfl
    have hunbound := ExpandsPieces.unbound hv .nil
    rwa [List.append_nil] at hunbound

/-- What is written for a placeholder has the same expansion. -/
theorem Reference.Simple.expands_substitute (hr : r.Simple) :
    Expands flat (substitute flat r) t ↔ Expands flat r.text t := by
  cases hv : bound? flat r with
  | some v => rw [substitute_of_bound hv, hr.expands_of_bound hv]
  | none =>
      rw [substitute_of_unbound hv]
      cases hfallback : r.fallback with
      | none => rfl
      | some fallback =>
          rw [hr.expands_of_unbound hv, hfallback, Option.getD_some]
          exact (hr.fallback_literal fallback hfallback).expands_iff

/-! ## One pass -/

/-- A pass keeps the expansion. -/
theorem expands_pass (hflat : WellFormedValues flat) (hs : WellFormed s) :
    Expands flat (pass flat s) t ↔ Expands flat s t := by
  induction hs generalizing t with
  | nil => rfl
  | literal hc _ ih =>
      rw [pass_cons (reference_literal_cons hc _), expands_literal_cons hc, expands_literal_cons hc]
      simp only [ih]
  | placeholder hr _ ih =>
      rw [pass_text_append hr.readable, (hflat.substitute hr).expands_append, hr.text.expands_append]
      simp only [ih, hr.expands_substitute]

theorem mem_occurrences_pass (hflat : WellFormedValues flat) (hs : WellFormed s) :
    r ∈ Text.occurrences reference (pass flat s) ↔
      ∃ q ∈ Text.occurrences reference s, r ∈ Text.occurrences reference (substitute flat q) := by
  induction hs with
  | nil => simp [pass, Text.replaceMatches, Text.occurrences, Text.pieces, Text.piecesAfter]
  | literal hc _ ih =>
      rw [pass_cons (reference_literal_cons hc _), occurrences_literal_cons hc,
        occurrences_literal_cons hc, ih]
  | placeholder hr _ ih =>
      rw [pass_text_append hr.readable, (hflat.substitute hr).occurrences_append, List.mem_append, ih,
        occurrences_text_append hr.readable]
      simp

theorem WellFormed.of_mem_occurrences (hs : WellFormed s) (hr : r ∈ Text.occurrences reference s) :
    r.Simple := by
  obtain ⟨x, hx, hxr⟩ := List.mem_filterMap.1 hr
  cases x with
  | plain c => simp at hxr
  | found q =>
      obtain rfl : q = r := by simpa using hxr
      exact wellFormed_iff.1 hs _ hx

/-- What is not bound leads no further once something has been written for it. -/
theorem Reference.Simple.of_mem_substitute {q : Reference} (hr : r.Simple) (hv : bound? flat r = none)
    (hq : q ∈ Text.occurrences reference (substitute flat r)) : q = r ∧ r.fallback = none := by
  rw [substitute_of_unbound hv] at hq
  cases hfallback : r.fallback with
  | none =>
      rw [hfallback, Option.getD_none, occurrences_text hr.readable, List.mem_singleton] at hq
      exact ⟨hq, rfl⟩
  | some fallback =>
      rw [hfallback, Option.getD_some, (hr.fallback_literal fallback hfallback).occurrences_eq_nil] at hq
      contradiction

/-- A pass takes the first placeholder from every chain. -/
theorem within_pass (hflat : WellFormedValues flat) (hs : WellFormed s) :
    Within flat (isReplaced flat) n (pass flat s) ↔ Within flat (isReplaced flat) (n + 1) s := by
  -- what is left of a placeholder that is not bound is the end of a chain
  have hstep (P : Reference → Prop) (hP : ∀ q, bound? flat q = none → q.fallback = none → P q) :
      (∀ q ∈ Text.occurrences reference (pass flat s), P q) ↔
        ∀ q ∈ Text.occurrences reference s, ∀ v ∈ bound? flat q,
          ∀ r ∈ Text.occurrences reference v, P r := by
    constructor
    · intro h q hq v hv r hr
      refine h r ((mem_occurrences_pass hflat hs).2 ⟨q, hq, ?_⟩)
      rwa [substitute_of_bound hv]
    · intro h r hr
      obtain ⟨q, hq, hr⟩ := (mem_occurrences_pass hflat hs).1 hr
      cases hv : bound? flat q with
      | some v =>
          rw [substitute_of_bound hv] at hr
          exact h q hq v hv r hr
      | none =>
          obtain ⟨rfl, hfallback⟩ := (hs.of_mem_occurrences hq).of_mem_substitute hv hr
          exact hP r hv hfallback
  cases n with
  | zero => exact hstep _ fun q hv hfallback => isReplaced_eq_false_iff.2 ⟨hv, hfallback⟩
  | succ n => exact hstep _ fun q hv _ => by simp [hv]

/-! ## Several passes -/

theorem expands_stage (hflat : WellFormedValues flat) (hs : WellFormed s) (n : Nat) :
    Expands flat (stage flat n s) t ↔ Expands flat s t := by
  induction n with
  | zero => rw [stage_zero_eq_self hs]
  | succ n ih => rw [stage_succ, expands_pass hflat (wellFormed_stage hflat hs n), ih]

theorem within_stage (hflat : WellFormedValues flat) (hs : WellFormed s) :
    Within flat (isReplaced flat) m (stage flat n s) ↔ Within flat (isReplaced flat) (m + n) s := by
  induction n generalizing m with
  | zero => rw [stage_zero_eq_self hs, Nat.add_zero]
  | succ n ih =>
      rw [stage_succ, within_pass hflat (wellFormed_stage hflat hs n), ih, Nat.add_right_comm, Nat.add_assoc]

theorem WellFormed.settled_append (hs : WellFormed s) :
    Within flat (isReplaced flat) 0 (s ++ t) ↔
      Within flat (isReplaced flat) 0 s ∧ Within flat (isReplaced flat) 0 t := by
  rw [Within, hs.occurrences_append, List.forall_mem_append]
  rfl

theorem settled_literal_cons (hc : isLiteralChar c = true) :
    Within flat (isReplaced flat) 0 (c :: s) ↔ Within flat (isReplaced flat) 0 s := by
  rw [Within, occurrences_literal_cons hc]
  rfl

theorem settled_text (hr : r.Readable) :
    Within flat (isReplaced flat) 0 r.text ↔ bound? flat r = none ∧ r.fallback = none := by
  rw [Within, occurrences_text hr, List.forall_mem_singleton, isReplaced_eq_false_iff]

/-- A text in which nothing is replaced is its own expansion. -/
theorem expands_self (hs : WellFormed s) (h : Within flat (isReplaced flat) 0 s) : Expands flat s s := by
  induction hs with
  | nil => exact .nil
  | literal hc _ ih => exact (expands_literal_cons hc).2 ⟨_, rfl, ih ((settled_literal_cons hc).1 h)⟩
  | placeholder hr _ ih =>
      obtain ⟨htext, hs⟩ := hr.text.settled_append.1 h
      obtain ⟨hv, hnone⟩ := (settled_text hr.readable).1 htext
      refine hr.text.expands_append.2 ⟨_, _, rfl, (hr.expands_of_unbound hv).2 ?_, ih hs⟩
      rw [hnone]
      rfl

theorem pass_of_settled (hs : WellFormed s) (h : Within flat (isReplaced flat) 0 s) : pass flat s = s := by
  induction hs with
  | nil => rfl
  | literal hc _ ih => rw [pass_cons (reference_literal_cons hc _), ih ((settled_literal_cons hc).1 h)]
  | placeholder hr _ ih =>
      obtain ⟨htext, hs⟩ := hr.text.settled_append.1 h
      obtain ⟨hv, hnone⟩ := (settled_text hr.readable).1 htext
      rw [pass_text_append hr.readable, substitute_of_unbound hv, hnone, ih hs]
      rfl

/-- In an expansion nothing is left to be replaced.  Behind a bound placeholder the induction goes on with the
pieces of its text, so that well formed values are needed, and not only a well formed text. -/
theorem ExpandsPieces.settled {xs : List (Text.Piece Reference)} (hflat : WellFormedValues flat)
    (h : ExpandsPieces flat xs t) (hxs : ∀ x ∈ xs, WellFormedPiece x) :
    WellFormed t ∧ Within flat (isReplaced flat) 0 t := by
  induction h with
  | nil => exact ⟨.nil, by simp [Within, Text.occurrences, Text.pieces, Text.piecesAfter]⟩
  | @plain xs t c _ ih =>
      obtain ⟨hc, hxs⟩ := List.forall_mem_cons.1 hxs
      obtain ⟨ht, hsettled⟩ := ih hxs
      exact ⟨.literal hc ht, (settled_literal_cons hc).2 hsettled⟩
  | bound hv _ _ ihw iht =>
      obtain ⟨-, hxs⟩ := List.forall_mem_cons.1 hxs
      obtain ⟨hw, hsettledw⟩ := ihw (wellFormed_iff.1 (hflat.of_bound hv))
      obtain ⟨ht, hsettledt⟩ := iht hxs
      exact ⟨hw.append ht, hw.settled_append.2 ⟨hsettledw, hsettledt⟩⟩
  | @unbound xs r t hv _ ih =>
      obtain ⟨hr, hxs⟩ := List.forall_mem_cons.1 hxs
      obtain ⟨ht, hsettled⟩ := ih hxs
      have hr : r.Simple := hr
      have hwritten := hflat.substitute hr
      rw [← substitute_of_unbound hv]
      refine ⟨hwritten.append ht, hwritten.settled_append.2 ⟨fun q hq => ?_, hsettled⟩⟩
      obtain ⟨rfl, hfallback⟩ := hr.of_mem_substitute hv hq
      exact isReplaced_eq_false_iff.2 ⟨hv, hfallback⟩

theorem Expands.settled (hflat : WellFormedValues flat) (hs : WellFormed s) (h : Expands flat s t) :
    Within flat (isReplaced flat) 0 t :=
  (ExpandsPieces.settled hflat h (wellFormed_iff.1 hs)).2

/-- The resolved text is the expansion exactly when no chain has more placeholders that are replaced than
there are passes. -/
theorem expands_iff_resolve (hflat : WellFormedValues flat) (hs : WellFormed s) :
    (∀ rs, Chain flat s rs → rs.countP (isReplaced flat) ≤ maxPasses) ↔
      ∀ t, Expands flat s t ↔ t = resolve flat s := by
  have hstages : Within flat (isReplaced flat) 0 (stage flat maxPasses s) ↔
      Within flat (isReplaced flat) maxPasses s := by
    rw [within_stage hflat hs, Nat.zero_add]
  rw [← within_iff fun _ => isReplaced_of_isBound, ← hstages, resolve_eq_stage hflat hs]
  constructor
  · -- the last stage is its own expansion, and the passes have kept the one of the text
    intro hsettled t
    have hself : Expands flat s (stage flat maxPasses s) :=
      (expands_stage hflat hs maxPasses).1 (expands_self (wellFormed_stage hflat hs maxPasses) hsettled)
    refine ⟨fun ht => ht.unique hself, fun ht => ?_⟩
    rw [ht]
    exact hself
  · intro h
    exact Expands.settled hflat hs ((h _).2 rfl)

/-- The address of a database, put together from other properties. -/
def databaseProperties : Properties := .ofList [
  ("url", .string "jdbc:${vendor}://${ host }:${port:5432}/${name}"), ("vendor", .string "pg"),
  ("host", .string "${node}.local"), ("node", .number (.whole ⟨7, by decide, by decide⟩)), ("port", .null)]

theorem expands_iff_resolve_databaseUrl :
    WellFormedValues databaseProperties ∧ WellFormed "db=${url}".toList ∧
      (∀ rs, Chain databaseProperties "db=${url}".toList rs →
        rs.countP (isReplaced databaseProperties) ≤ maxPasses) ∧
      ∀ t, Expands databaseProperties "db=${url}".toList t ↔
        t = "db=jdbc:pg://7.local:5432/${name}".toList := by
  have hflat : WellFormedValues databaseProperties := by decide
  have hs : WellFormed "db=${url}".toList := by decide
  have hchains : ∀ rs, Chain databaseProperties "db=${url}".toList rs →
      rs.countP (isReplaced databaseProperties) ≤ maxPasses :=
    (within_iff fun _ => isReplaced_of_isBound).1 (by decide)
  have hresolved : resolve databaseProperties "db=${url}".toList =
      "db=jdbc:pg://7.local:5432/${name}".toList := by decide
  have hexpands := (expands_iff_resolve hflat hs).1 hchains
  rw [hresolved] at hexpands
  exact ⟨hflat, hs, hchains, hexpands⟩

/-- Ten properties of which each leads to the next one, and the last one to a default. -/
def relayProperties : Properties := .ofList [
  ("a1", .string "${a2}"), ("a2", .string "${a3}"), ("a3", .string "${a4}"), ("a4", .string "${a5}"),
  ("a5", .string "${a6}"), ("a6", .string "${a7}"), ("a7", .string "${a8}"), ("a8", .string "${a9}"),
  ("a9", .string "${a10}"), ("a10", .string "${end:0}")]

/-- Where a chain goes through ten properties no pass is left for the default that it ends with. -/
theorem not_expands_of_bound :
    ¬ ∀ (flat : Properties) (s : List Char), (∀ e ∈ flat.entries, e.2.IsScalar) → WellFormedValues flat →
      WellFormed s → (∀ rs, Chain flat s rs → rs.countP (isBound flat) ≤ maxPasses) →
        Expands flat s (resolve flat s) := by
  intro h
  have hflat : WellFormedValues relayProperties := by decide
  have hs : WellFormed "${a1}".toList := by decide
  have hchains : ∀ rs, Chain relayProperties "${a1}".toList rs →
      rs.countP (isBound relayProperties) ≤ maxPasses := (within_iff fun _ => id).1 (by decide)
  have hexpands := h relayProperties "${a1}".toList (by decide) hflat hs hchains
  exact absurd (hexpands.settled hflat hs) (by decide)

end LayeredConfig.Placeholder
