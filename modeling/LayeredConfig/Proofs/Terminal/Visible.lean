import LayeredConfig.Proofs.Text.Fields
import LayeredConfig.Terminal.Grid

/-!
# What is seen of a text

An escape sequence takes away everything up to the next `m`, whatever stands there.  Where every escape character
has an `m` behind it in the same text, no sequence gets out of the text, and it can be put among others without
anything of them being lost.

* `Closed` — every escape sequence of a text comes to its end in it.
* `Closed.visible_append`, `visible_joinWith` — of texts put together is seen what is seen of each of them.
* `Closed.trimEnd_append_visible` — trimming takes nothing away but white space that is seen.
* `visible_visible` — what is seen holds no escape sequences.
-/

namespace LayeredConfig.Terminal

variable {s t : List Char} {inside : Bool}

/-- Every escape character has an `m` behind it. -/
def Closed (s : List Char) : Prop := ∀ front rest, s = front ++ escapeChar :: rest → 'm' ∈ rest

theorem closed_nil : Closed [] := by
  intro front rest h
  simp at h

theorem closed_cons_iff {c : Char} : Closed (c :: s) ↔ (c = escapeChar → 'm' ∈ s) ∧ Closed s := by
  constructor
  · intro h
    refine ⟨?_, fun front rest hs => h (c :: front) rest (by rw [hs, List.cons_append])⟩
    rintro rfl
    exact h [] s rfl
  · rintro ⟨hhead, htail⟩ front rest h
    cases front with
    | nil =>
        obtain ⟨rfl, rfl⟩ := List.cons.inj h
        exact hhead rfl
    | cons d front =>
        obtain ⟨rfl, rfl⟩ := List.cons.inj h
        exact htail front rest rfl

instance decidableClosed : (s : List Char) → Decidable (Closed s)
  | [] => isTrue closed_nil
  | _ :: s =>
    have := decidableClosed s
    decidable_of_iff _ closed_cons_iff.symm

theorem closed_of_not_mem (h : escapeChar ∉ s) : Closed s := by
  rintro front rest rfl
  simp at h

theorem Closed.append (hs : Closed s) (ht : Closed t) : Closed (s ++ t) := by
  induction s with
  | nil => exact ht
  | cons c s ih =>
      obtain ⟨hhead, htail⟩ := closed_cons_iff.1 hs
      exact closed_cons_iff.2 ⟨fun hc => List.mem_append_left t (hhead hc), ih htail⟩

/-- A sequence cannot come to its end in a text without an `m`. -/
theorem Closed.of_append (h : Closed (s ++ t)) (ht : 'm' ∉ t) : Closed s := by
  rintro front rest rfl
  have hmem : 'm' ∈ rest ++ t := h front (rest ++ t) (by simp)
  exact (List.mem_append.1 hmem).resolve_right ht

theorem closed_joinWith {between : List Char} {parts : List (List Char)} (hbetween : Closed between)
    (hparts : ∀ part ∈ parts, Closed part) : Closed (Text.joinWith between parts) := by
  induction parts with
  | nil => exact closed_nil
  | cons part rest ih =>
      obtain ⟨hpart, hrest⟩ := List.forall_mem_cons.1 hparts
      cases rest with
      | nil => exact hpart
      | cons next rest => exact (hpart.append hbetween).append (ih hrest)

/-! ## What is seen -/

theorem visibleFrom_sublist : (visibleFrom inside s).Sublist s := by
  induction s generalizing inside with
  | nil => exact List.Sublist.refl _
  | cons c s ih =>
      rw [visibleFrom]
      split_ifs
      · exact ih.cons c
      · exact ih.cons c
      · exact ih.cons_cons c

theorem visible_sublist (s : List Char) : (visible s).Sublist s := visibleFrom_sublist

theorem escapeChar_not_mem_visibleFrom : escapeChar ∉ visibleFrom inside s := by
  induction s generalizing inside with
  | nil => simp [visibleFrom]
  | cons c s ih =>
      rw [visibleFrom]
      split_ifs with hinside hc
      · exact ih
      · exact ih
      · rw [List.mem_cons, not_or]
        exact ⟨Ne.symm hc, ih⟩

theorem visible_eq_self (h : escapeChar ∉ s) : visible s = s := by
  induction s with
  | nil => rfl
  | cons c s ih =>
      rw [List.mem_cons, not_or] at h
      have hc : c ≠ escapeChar := Ne.symm h.1
      have hrest : visibleFrom false s = s := ih h.2
      simp [visible, visibleFrom, hc, hrest]

theorem closed_visible (s : List Char) : Closed (visible s) :=
  closed_of_not_mem escapeChar_not_mem_visibleFrom

/-- What is seen holds no escape sequences. -/
theorem visible_visible (s : List Char) : visible (visible s) = visible s :=
  visible_eq_self escapeChar_not_mem_visibleFrom

/-- By induction on the text in front, in either state: a sequence that has begun ends in it. -/
theorem visibleFrom_append (hs : Closed s) (hinside : inside = true → 'm' ∈ s) (t : List Char) :
    visibleFrom inside (s ++ t) = visibleFrom inside s ++ visible t := by
  induction s generalizing inside with
  | nil =>
      obtain rfl : inside = false := by simpa using hinside
      rfl
  | cons c s ih =>
      obtain ⟨hhead, htail⟩ := closed_cons_iff.1 hs
      rw [List.cons_append, visibleFrom, visibleFrom]
      split_ifs with hstate hc
      · -- the sequence goes on behind any character but its last
        apply ih htail
        intro hgoes
        have hne : 'm' ≠ c := Ne.symm (of_decide_eq_true hgoes)
        exact (List.mem_cons.1 (hinside hstate)).resolve_left hne
      · exact ih htail fun _ => hhead hc
      · rw [ih htail (by simp), List.cons_append]

theorem Closed.visible_append (hs : Closed s) (t : List Char) : visible (s ++ t) = visible s ++ visible t :=
  visibleFrom_append hs (by simp) t

theorem visible_joinWith {between : List Char} {parts : List (List Char)} (hbetween : escapeChar ∉ between)
    (hparts : ∀ part ∈ parts, Closed part) :
    visible (Text.joinWith between parts) = Text.joinWith between (parts.map visible) := by
  induction parts with
  | nil => rfl
  | cons part rest ih =>
      obtain ⟨hpart, hrest⟩ := List.forall_mem_cons.1 hparts
      cases rest with
      | nil => rfl
      | cons next rest =>
          have hboth := hpart.append (closed_of_not_mem hbetween)
          rw [Text.joinWith_cons_cons, hboth.visible_append, hpart.visible_append, visible_eq_self hbetween,
            ih hrest]
          rfl

theorem not_mem_of_all_isBlank {c : Char} {back : List Char} (hback : ∀ d ∈ back, Text.isBlank d = true)
    (hc : Text.isBlank c = false) : c ∉ back := by
  intro hmem
  rw [hback c hmem] at hc
  contradiction

theorem Closed.trimEnd (hs : Closed s) : Closed (Text.trimEnd s) := by
  obtain ⟨back, hsplit, hback⟩ := Text.exists_trimEnd s
  rw [hsplit] at hs
  exact hs.of_append (not_mem_of_all_isBlank hback (by decide))

/-- White space that is trimmed away stands outside of all sequences, since the last of them ends with an `m`: behind
any text it may be trimmed away before or after. -/
theorem Closed.trimEnd_append_visible (hs : Closed s) (front : List Char) :
    Text.trimEnd (front ++ visible (Text.trimEnd s)) = Text.trimEnd (front ++ visible s) := by
  obtain ⟨back, hsplit, hback⟩ := Text.exists_trimEnd s
  have hseen : visible s = visible (Text.trimEnd s) ++ back := by
    conv_lhs => rw [hsplit]
    rw [hs.trimEnd.visible_append, visible_eq_self (not_mem_of_all_isBlank hback (by decide))]
  rw [hseen, ← List.append_assoc, Text.trimEnd_append_of_isBlank hback]

end LayeredConfig.Terminal
