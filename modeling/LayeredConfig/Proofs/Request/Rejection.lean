import LayeredConfig.Proofs.Request.Traversal

/-!
# Rejected requests

The parts of a request are checked one after another, and the first one that leads out of a directory is
named; only then is an application asked for.  What counts is what a part spells, so that an escape by
itself is never a reason: an escaped slash only divides a part, and an escaped point has to stand next to
another point.

* `make_eq` — the checks as a search for the first part that is found unsafe.
* `make_eq_error_iff` — which requests are rejected, and why.
* `harmless_escape_iff` — how an escape within a part counts.
* `not_escapes_rejected` — parts with escapes that are accepted.
-/

namespace LayeredConfig.Request

variable {application profile : String} {label : Option String} {problem : Problem}
variable {s t : List Char} {d : Char}

/-- The parts that a request is made of, in the order in which they are checked. -/
def given (application profile : String) (label : Option String) : List (Part × String) :=
  (.application, application) :: (.profile, profile) :: label.toList.map fun text => (.label, text)

/-- A text that spells two points, a backslash or NUL, each of them as it is or as an escape. -/
def LeadsOut (s : List Char) : Prop := Spelled ['.', '.'] s ∨ Spelled ['\\'] s ∨ Spelled ['\x00'] s

theorem not_harmless_iff : ¬ Harmless s ↔ LeadsOut s := by
  rw [harmless_iff, confined_unescape_iff, LeadsOut]
  simp only [not_and_or, not_not]

/-- A part is unsafe where it leads out. -/
theorem isUnsafe_eq_true_iff : isUnsafe s = true ↔ LeadsOut s := by
  rw [← not_harmless_iff, ← isUnsafe_eq_false_iff, Bool.not_eq_false]

/-- The first unsafe part is reported, and a blank application only behind all of them. -/
theorem make_eq (application profile : String) (label : Option String) :
    make application profile label =
      match (given application profile label).find? fun part => isUnsafe part.2.toList with
      | some (part, text) => .error (.unsafePart part text)
      | none =>
        if isBlankText application then .error .blankApplication
        else .ok ⟨normalize application, profile,
          (label.filter fun text => !isBlankText text).map normalize⟩ := by
  rw [make, given]
  cases happlication : isUnsafe application.toList with
  | true => simp [checkPart, happlication, bind, Except.bind]
  | false =>
      cases hprofile : isUnsafe profile.toList with
      | true => simp [checkPart, happlication, hprofile, bind, Except.bind]
      | false =>
          cases label with
          | none => simp [checkPart, happlication, hprofile, bind, Except.bind]
          | some text =>
              cases hlabel : isUnsafe text.toList <;>
                simp [checkPart, happlication, hprofile, hlabel, bind, Except.bind]

/-- A request is rejected for its first part that leads out of a directory, or for a blank application where
there is none. -/
theorem make_eq_error_iff :
    make application profile label = .error problem ↔
      (∃ before part text after, given application profile label = before ++ (part, text) :: after ∧
        LeadsOut text.toList ∧ (∀ other ∈ before, Harmless other.2.toList) ∧
          problem = .unsafePart part text) ∨
      ((∀ part ∈ given application profile label, Harmless part.2.toList) ∧
        isBlankText application = true ∧ problem = .blankApplication) := by
  rw [make_eq]
  cases hfind : (given application profile label).find? fun part => isUnsafe part.2.toList with
  | some found =>
      obtain ⟨part, text⟩ := found
      obtain ⟨hfound, before, after, hparts, hbefore⟩ := List.find?_eq_some_iff_append.1 hfind
      have hleads : LeadsOut text.toList := isUnsafe_eq_true_iff.1 hfound
      have hharmless : ∀ other ∈ before, Harmless other.2.toList := fun other hother =>
        isUnsafe_eq_false_iff.1 (by simpa using hbefore other hother)
      constructor
      · intro heq
        exact .inl ⟨before, part, text, after, hparts, hleads, hharmless, (Except.error.inj heq).symm⟩
      · rintro (⟨before', part', text', after', hparts', hleads', hharmless', rfl⟩ | ⟨hall, -⟩)
        · -- the first part that leads out is the one that is found
          have hfind' : (given application profile label).find? (fun part => isUnsafe part.2.toList) =
              some (part', text') := by
            refine List.find?_eq_some_iff_append.2
              ⟨isUnsafe_eq_true_iff.2 hleads', before', after', hparts', fun other hother => ?_⟩
            rw [isUnsafe_eq_false_iff.2 (hharmless' other hother)]
            rfl
          obtain ⟨rfl, rfl⟩ := Prod.mk.inj (Option.some.inj (hfind.symm.trans hfind'))
          rfl
        · exact absurd (hall (part, text) (List.mem_of_find?_eq_some hfind)) (not_harmless_iff.2 hleads)
  | none =>
      have hall : ∀ part ∈ given application profile label, Harmless part.2.toList := fun part hpart =>
        isUnsafe_eq_false_iff.1 (by simpa using List.find?_eq_none.1 hfind part hpart)
      constructor
      · intro heq
        by_cases hblank : isBlankText application = true
        · simp only [if_pos hblank] at heq
          exact .inr ⟨hall, hblank, (Except.error.inj heq).symm⟩
        · simp only [if_neg hblank] at heq
          contradiction
      · rintro (⟨before, part, text, after, hparts, hleads, -⟩ | ⟨-, hblank, rfl⟩)
        · have hmem : (part, text) ∈ given application profile label := by simp [hparts]
          exact absurd (hall _ hmem) (not_harmless_iff.2 hleads)
        · simp only [if_pos hblank]

/-! ## Escapes within a part -/

theorem unescape_append_escape {a b : Char} (h : escape? a b = some d) (s t : List Char) :
    unescape (s ++ '%' :: a :: b :: t) = unescape s ++ d :: unescape t := by
  rw [unescape_append divides_percent, unescape_escape h]

theorem points_infix_append_cons_iff :
    ['.', '.'] <:+: s ++ d :: t ↔
      ['.', '.'] <:+: s ∨ ['.', '.'] <:+: t ∨
        d = '.' ∧ (s.getLast? = some '.' ∨ t.head? = some '.') := by
  induction s with
  | nil =>
      have hstart : ['.', '.'] <+: d :: t ↔ d = '.' ∧ t.head? = some '.' := by
        cases t <;> simp [eq_comm]
      simp [List.infix_cons_iff, hstart, or_comm]
  | cons c s ih =>
      rw [List.cons_append, List.infix_cons_iff, ih, List.infix_cons_iff]
      cases s with
      | nil =>
          have hstart : ['.', '.'] <+: c :: ([] ++ d :: t) ↔ c = '.' ∧ d = '.' := by simp [eq_comm]
          rw [hstart]
          simp
          tauto
      | cons e s =>
          have hstart : ['.', '.'] <+: c :: (e :: s ++ d :: t) ↔ ['.', '.'] <+: c :: e :: s := by simp
          rw [hstart, List.getLast?_cons_cons]
          tauto

/-- An escape divides a part.  It is judged by the character that it stands for, a point also by what stands
next to it. -/
theorem harmless_escape_iff {a b : Char} (h : escape? a b = some d) (s t : List Char) :
    Harmless (s ++ '%' :: a :: b :: t) ↔
      Harmless s ∧ Harmless t ∧ d ≠ '\\' ∧ d ≠ '\x00' ∧
        (d = '.' → (unescape s).getLast? ≠ some '.' ∧ (unescape t).head? ≠ some '.') := by
  rw [harmless_iff, harmless_iff, harmless_iff, unescape_append_escape h]
  constructor
  · rintro ⟨hpoints, hback, hnul⟩
    rw [points_infix_append_cons_iff] at hpoints
    simp only [List.mem_append, List.mem_cons, not_or, not_and] at hpoints hback hnul
    exact ⟨⟨hpoints.1, hback.1, hnul.1⟩, ⟨hpoints.2.1, hback.2.2, hnul.2.2⟩, Ne.symm hback.2.1,
      Ne.symm hnul.2.1, hpoints.2.2⟩
  · rintro ⟨⟨hpoints, hback, hnul⟩, ⟨hpoints', hback', hnul'⟩, hd, hd', hnext⟩
    constructor
    · rw [points_infix_append_cons_iff]
      simp only [not_or, not_and]
      exact ⟨hpoints, hpoints', hnext⟩
    · simp [hback, hback', hd.symm]
    · simp [hnul, hnul', hd'.symm]

/-- Neither escape is a reason to reject a request: an application with an escaped point between letters is
accepted, and so is one with an escaped slash. -/
theorem not_escapes_rejected :
    (¬ ∀ application profile label,
      (∃ part ∈ given application profile label, ['%', '2', 'e'] <:+: Text.lower part.2.toList) →
        ∃ problem, make application profile label = .error problem) ∧
    ¬ ∀ application profile label,
      (∃ part ∈ given application profile label, ['%', '2', 'f'] <:+: Text.lower part.2.toList) →
        ∃ problem, make application profile label = .error problem := by
  have ha : Harmless ['a'] := isUnsafe_eq_false_iff.1 (by decide)
  have hb : Harmless ['b'] := isUnsafe_eq_false_iff.1 (by decide)
  have hprofile : Harmless "dev".toList := isUnsafe_eq_false_iff.1 (by decide)
  constructor
  · intro h
    obtain ⟨problem, hproblem⟩ := h "a%2eb" "dev" none
      ⟨(.application, "a%2eb"), List.mem_cons_self, ['a'], ['b'], by decide⟩
    have hpoint : Harmless "a%2eb".toList :=
      (harmless_escape_iff (by rfl) ['a'] ['b']).2 ⟨ha, hb, by decide⟩
    rw [make_eq_ok_iff.2 ⟨hpoint, hprofile, by simp, by decide, rfl⟩] at hproblem
    contradiction
  · intro h
    obtain ⟨problem, hproblem⟩ := h "a%2Fb" "dev" none
      ⟨(.application, "a%2Fb"), List.mem_cons_self, ['a'], ['b'], by decide⟩
    have hslash : Harmless "a%2Fb".toList :=
      (harmless_escape_iff (by rfl) ['a'] ['b']).2 ⟨ha, hb, by decide⟩
    rw [make_eq_ok_iff.2 ⟨hslash, hprofile, by simp, by decide, rfl⟩] at hproblem
    contradiction

end LayeredConfig.Request
