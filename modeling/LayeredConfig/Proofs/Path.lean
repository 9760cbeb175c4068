import LayeredConfig.Path
import LayeredConfig.Proofs.Text.Fields

/-!
# Directories and joined paths

A path is a plain name if it goes no further behind its first segment.  It has no directory that a second path
could be joined to: either nothing is left without the last step, or the empty path.

* `join_eq_empty_iff` — a joined path is empty only if both its parts are.
* `parent?_eq_empty_iff` — the paths without a directory.
-/

namespace LayeredConfig.Path

/-- A path takes a step behind its first segment. -/
def HasDirectory (path : String) : Prop :=
  ∃ segment ∈ (Text.fields '/' path.toList).tail, isIdle segment = false

instance : DecidablePred HasDirectory := fun path =>
  inferInstanceAs (Decidable (∃ segment ∈ (Text.fields '/' path.toList).tail, isIdle segment = false))

variable {path : String} {body : List Char}

theorem join_eq_empty_iff {base : String} : join base path = "" ↔ base = "" ∧ path = "" := by
  unfold join
  split
  · next habsolute =>
      have hne : path ≠ "" := by
        rintro rfl
        exact absurd habsolute (by decide)
      simp [hne]
  · split
    · simp
    · next hbase =>
        have hne : base ≠ "" := by
          rintro rfl
          exact hbase rfl
        simp [hne]

theorem steps_eq_nil_iff : steps body = [] ↔ ∀ segment ∈ Text.fields '/' body, isIdle segment = true := by
  simp [steps]

/-- What stands in front of the last step is kept with all its steps. -/
theorem joinWith_steps_ne_nil {rest : List (List Char)} {segment : List Char} (hmem : segment ∈ rest)
    (hstep : isIdle segment = false) :
    Text.joinWith ['/'] (rest.dropWhile isIdle).reverse ≠ [] := by
  have hkept : segment ∈ rest.dropWhile isIdle := by
    rw [← List.takeWhile_append_dropWhile (p := isIdle) (l := rest), List.mem_append] at hmem
    refine hmem.resolve_left fun h => ?_
    simp [List.mem_takeWhile_imp h] at hstep
  refine Text.joinWith_ne_nil (List.mem_reverse.2 hkept) ?_
  rintro rfl
  simp [isIdle] at hstep

/-- A first segment of one point is the current directory, written out. -/
theorem eq_of_fields_eq_point {s : List Char} {rest : List (List Char)}
    (h : Text.fields '/' s = ['.'] :: rest) : s = ['.'] ∨ ∃ t, s = '.' :: '/' :: t := by
  obtain ⟨t, rfl⟩ := Text.prefix_of_fields_eq_cons h
  cases t with
  | nil => exact .inl rfl
  | cons c t =>
      right
      by_cases hc : c = '/'
      · subst hc
        exact ⟨t, rfl⟩
      · rw [Text.fields_append_of_not_mem (by decide)] at h
        have hfirst := (List.cons.inj h).1
        simp [hc] at hfirst

/-- Where the root or the current directory is written out, all steps stand behind the first segment.  Otherwise
the first segment is a step itself, if there is one. -/
theorem anchored_cases (s : List Char) :
    (anchored s).1 ≠ [] ∧ (steps (anchored s).2 = [] ↔
        ∀ segment ∈ (Text.fields '/' s).tail, isIdle segment = true) ∨
      anchored s = ([], s) ∧ (s = [] ∨ ∃ first rest, Text.fields '/' s = first :: rest ∧
        isIdle first = false) := by
  unfold anchored
  split
  · left
    rw [steps_eq_nil_iff, Text.fields_cons_self, List.tail_cons]
    simp
  · left
    decide
  · next t =>
      left
      have hpoint : Text.fields '/' ('.' :: '/' :: t) = ['.'] :: Text.fields '/' t :=
        Text.fields_append '/' ['.'] t
      rw [steps_eq_nil_iff, Text.fields_cons_self, hpoint, List.tail_cons, List.forall_mem_cons]
      simp [isIdle]
  · next hroot hpoint hcurrent =>
      refine .inr ⟨rfl, ?_⟩
      cases s with
      | nil => exact .inl rfl
      | cons c s =>
          right
          have hc : c ≠ '/' := by
            rintro rfl
            exact hroot s rfl
          obtain ⟨first, rest, -, hfields⟩ := Text.fields_cons_of_ne hc s
          refine ⟨c :: first, rest, hfields, ?_⟩
          have hne : c :: first ≠ ['.'] := by
            intro hfirst
            rw [hfirst] at hfields
            rcases eq_of_fields_eq_point hfields with hs | ⟨t, hs⟩
            · exact hpoint hs
            · exact hcurrent t hs
          simp [isIdle, hne]

/-- A first segment that is a step is the only one, or other steps stand behind it. -/
theorem steps_cases {first : List Char} {rest : List (List Char)}
    (hfields : Text.fields '/' body = first :: rest) (hstep : isIdle first = false) :
    steps body = [first] ∧ (∀ segment ∈ rest, isIdle segment = true) ∨
      ∃ step front, steps body = step :: (front ++ [first]) ∧
        ¬ ∀ segment ∈ rest, isIdle segment = true := by
  have hbody : steps body = (rest.reverse ++ [first]).dropWhile isIdle := by
    rw [steps, hfields, List.reverse_cons]
  by_cases hrest : ∀ segment ∈ rest, isIdle segment = true
  · left
    refine ⟨?_, hrest⟩
    rw [hbody, List.dropWhile_append_of_pos (by simpa using hrest),
      List.dropWhile_cons_of_neg (by simp [hstep])]
  · right
    obtain ⟨step, front, hfront⟩ : ∃ step front, rest.reverse.dropWhile isIdle = step :: front := by
      refine List.exists_cons_of_ne_nil fun hnil => hrest ?_
      simpa using hnil
    refine ⟨step, front, ?_, hrest⟩
    rw [hbody, List.dropWhile_append, hfront]
    rfl

theorem parent?_of_steps_eq_nil (h : steps (anchored path.toList).2 = []) :
    parent? path = if (anchored path.toList).1 = ['.'] then some "" else none := by
  unfold parent?
  simp only [h]

theorem parent?_of_steps_eq_cons {step : List Char} {rest : List (List Char)}
    (h : steps (anchored path.toList).2 = step :: rest) :
    parent? path = some (String.ofList ((anchored path.toList).1 ++
      Text.joinWith ['/'] (rest.dropWhile isIdle).reverse)) := by
  unfold parent?
  simp only [h]

/-- A path has no directory to join another path to exactly if it takes no step behind its first segment. -/
theorem parent?_eq_empty_iff : (∀ directory ∈ parent? path, directory = "") ↔ ¬ HasDirectory path := by
  have hplain : ¬ HasDirectory path ↔
      ∀ segment ∈ (Text.fields '/' path.toList).tail, isIdle segment = true := by
    simp [HasDirectory]
  have hempty : ∀ s : List Char, (∀ directory ∈ some (String.ofList s), directory = "") ↔ s = [] := by
    intro s
    simp only [Option.mem_def, Option.some.injEq, forall_eq']
    rw [← String.toList_inj, String.toList_ofList, String.toList_empty]
  rw [hplain]
  rcases anchored_cases path.toList with
    ⟨hanchor, hsteps⟩ | ⟨hanchored, hnil | ⟨first, rest, hfields, hstep⟩⟩
  · -- the root or the current directory is left where no step is
    rw [← hsteps]
    cases h : steps (anchored path.toList).2 with
    | nil =>
        rw [parent?_of_steps_eq_nil h]
        split <;> simp
    | cons step rest =>
        rw [parent?_of_steps_eq_cons h, hempty]
        simp [hanchor]
  · obtain rfl : path = "" := String.toList_inj.1 hnil
    decide
  · have hbody : (anchored path.toList).2 = path.toList := by
      rw [hanchored]
    rw [hfields, List.tail_cons]
    rcases steps_cases hfields hstep with ⟨hsteps, hrest⟩ | ⟨step, front, hsteps, hrest⟩
    · rw [← hbody] at hsteps
      rw [parent?_of_steps_eq_cons hsteps, hempty, hanchored]
      simpa [Text.joinWith] using hrest
    · rw [← hbody] at hsteps
      have hmem : first ∈ front ++ [first] := List.mem_append_right front List.mem_cons_self
      have hkept := joinWith_steps_ne_nil hmem hstep
      rw [parent?_of_steps_eq_cons hsteps, hempty, hanchored, List.nil_append]
      simp only [hrest, iff_false]
      exact hkept

example : HasDirectory "./config.yaml" ∧ ¬ HasDirectory "config.yaml/." := by decide

end LayeredConfig.Path
