import LayeredConfig.Config.Report
import LayeredConfig.Proofs.Key.Plain

/-!
# Errors in reports

A report collects the findings on one repository after another.  Every error names the field that it is about,
so that the errors at a field of a repository are those of the check on that field.

* `errors_report` — all errors in order.
* `fieldPath_inj` — the paths of different fields differ.
* `hasErrorAt_field_iff` — when there is an error at a field of a repository.
-/

namespace LayeredConfig.Config

/-- A report has an error at a path. -/
def Report.HasErrorAt (report : Report) (path : String) : Prop :=
  ∃ f ∈ report.errors, f.path = path

instance (report : Report) : DecidablePred report.HasErrorAt := fun path =>
  inferInstanceAs (Decidable (∃ f ∈ report.errors, f.path = path))

/-- The errors in one repository. -/
def repositoryErrors (i : Nat) (r : Repository) : List Finding :=
  (if r.dataFile = "" then [⟨repositoryPath i ++ ".dataFile", "dataFile cannot be empty"⟩] else []) ++
    if r.defaultLabel.any isBlankLabel then
      [⟨repositoryPath i ++ ".defaultLabel", "defaultLabel cannot be blank"⟩]
    else []

variable {present : String → Bool} {c : Config} {r : Repository} {f : Finding} {i : Nat}

/-! ## The errors in order -/

theorem errors_all (reports : List Report) :
    (Report.all reports).errors = reports.flatMap Report.errors := by
  have hfold : ∀ start : Report,
      (reports.foldl Report.append start).errors = start.errors ++ reports.flatMap Report.errors := by
    induction reports with
    | nil => simp
    | cons report reports ih =>
        intro start
        rw [List.foldl_cons, ih, List.flatMap_cons, Report.append, List.append_assoc]
  rw [Report.all, hfold, List.nil_append]

theorem errors_nameReport (earlier : List String) (path name : String) :
    (nameReport earlier path name).errors = [] := by
  rw [nameReport]
  split <;> rfl

/-- The errors in a repository come from two of its fields; its name and a missing file are only warned of. -/
theorem errors_repositoryReports (repositories : List Repository) (i : Nat) (earlier : List String) :
    (repositoryReports present i earlier repositories).flatMap Report.errors =
      (repositories.zipIdx i).flatMap fun (r, i) => repositoryErrors i r := by
  induction repositories generalizing i earlier with
  | nil => rfl
  | cons r rest ih =>
      have hfile : (dataFileReport present (repositoryPath i) r.dataFile).errors =
          if r.dataFile = "" then [⟨repositoryPath i ++ ".dataFile", "dataFile cannot be empty"⟩]
          else [] := by
        rw [dataFileReport]
        by_cases hempty : r.dataFile = ""
        · rw [if_pos (by simpa using hempty), if_pos hempty]
          rfl
        · rw [if_neg (by simpa using hempty), if_neg hempty]
          split <;> rfl
      have hlabel : (labelReport (repositoryPath i) r.defaultLabel).errors =
          if r.defaultLabel.any isBlankLabel then
            [⟨repositoryPath i ++ ".defaultLabel", "defaultLabel cannot be blank"⟩]
          else [] := by
        cases r.defaultLabel with
        | none => rfl
        | some label =>
            rw [labelReport, Option.any_some]
            split <;> rfl
      simp only [repositoryReports, List.flatMap_cons, List.zipIdx_cons, errors_nameReport,
        List.nil_append, hfile, hlabel, ih, repositoryErrors, List.append_assoc]

/-- The errors in a configuration: those in its repositories, one after another, and that in its log level. -/
theorem errors_report (present : String → Bool) (c : Config) :
    (c.report present).errors =
      (c.repositories.zipIdx.flatMap fun (r, i) => repositoryErrors i r) ++
        (levelReport (c.logging.bind Logging.level)).errors := by
  have hempty : c.emptinessReport.errors = [] := by
    rw [emptinessReport]
    split <;> rfl
  rw [report, errors_all, List.flatMap_cons, hempty, List.nil_append, List.flatMap_append,
    errors_repositoryReports, List.flatMap_singleton]

/-! ## The field of an error -/

/-- A place in one repository is no place in another one. -/
theorem fieldPath_inj {j : Nat} {s t : String} :
    repositoryPath i ++ s = repositoryPath j ++ t ↔ i = j ∧ s = t := by
  constructor
  · intro h
    have hdigits : Nat.toDigits 10 i ++ ']' :: s.toList = Nat.toDigits 10 j ++ ']' :: t.toList := by
      have htext := congrArg String.toList h
      simpa [repositoryPath] using htext
    obtain ⟨hij, hst⟩ := Key.digits_append_inj (fun _ => Key.isDigit_of_mem_toDigits)
      (fun _ => Key.isDigit_of_mem_toDigits) hdigits
    refine ⟨?_, String.toList_inj.1 hst⟩
    rw [← Key.indexValue_toDigits i, hij, Key.indexValue_toDigits]
  · rintro ⟨rfl, rfl⟩
    rfl

theorem path_of_mem_levelReport {level : Option String} (h : f ∈ (levelReport level).errors) :
    f.path = "logging.level" := by
  cases level with
  | none => simp [levelReport] at h
  | some level =>
      rw [levelReport] at h
      split at h
      · simp at h
      · rw [Report.error, List.mem_singleton] at h
        rw [h]

/-- Only the data file and the default label of a repository are ever in error: the one if it is empty, the other
if it is blank. -/
theorem hasErrorAt_field_iff {field : String} :
    (c.report present).HasErrorAt (repositoryPath i ++ field) ↔
      ∃ r, c.repositories[i]? = some r ∧
        (field = ".dataFile" ∧ r.dataFile = "" ∨
          field = ".defaultLabel" ∧ r.defaultLabel.any isBlankLabel = true) := by
  have hlevel : ∀ f ∈ (levelReport (c.logging.bind Logging.level)).errors,
      f.path ≠ repositoryPath i ++ field := by
    intro f hf hpath
    have hhead := congrArg (fun s => s.toList.head?) ((path_of_mem_levelReport hf).symm.trans hpath)
    simp [repositoryPath] at hhead
  have hfield : ∀ (j : Nat) (r : Repository),
      (∃ f ∈ repositoryErrors j r, f.path = repositoryPath i ++ field) ↔
        j = i ∧ (field = ".dataFile" ∧ r.dataFile = "" ∨
          field = ".defaultLabel" ∧ r.defaultLabel.any isBlankLabel = true) := by
    intro j r
    unfold repositoryErrors
    split <;> split <;> simp [fieldPath_inj, *] <;> grind
  unfold Report.HasErrorAt
  rw [errors_report]
  constructor
  · rintro ⟨f, hf, hpath⟩
    rcases List.mem_append.1 hf with hf | hf
    · obtain ⟨⟨r, j⟩, hmem, hf⟩ := List.mem_flatMap.1 hf
      obtain ⟨rfl, h⟩ := (hfield j r).1 ⟨f, hf, hpath⟩
      exact ⟨r, List.mem_zipIdx_iff_getElem?.1 hmem, h⟩
    · exact absurd hpath (hlevel f hf)
  · rintro ⟨r, hr, h⟩
    obtain ⟨f, hf, hpath⟩ := (hfield i r).2 ⟨rfl, h⟩
    refine ⟨f, List.mem_append_left _ (List.mem_flatMap.2 ⟨(r, i), ?_, hf⟩), hpath⟩
    exact List.mem_zipIdx_iff_getElem?.2 hr

end LayeredConfig.Config
