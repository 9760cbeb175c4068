import LayeredConfig.Config.Load
import LayeredConfig.Proofs.Config.Report
import LayeredConfig.Proofs.Path

/-!
# Data files without a name

A configuration is made ready before it is reported on: its relative paths are seen from the directory of its
file.  An empty data file then is that directory, which is no empty path, and so it is found only where the
configuration file has no directory.

* `Holds` — the configuration that a file holds.
* `prepare_eq_ok_iff` — what a configuration is made into.
* `hasErrorAt_dataFile_iff` — the data files that are reported.
-/

namespace LayeredConfig.Config

/-- A file holds a configuration once its references are replaced. -/
def Holds (files : FileSystem) (vars : Variables) (path : String) (c : Config) : Prop :=
  ∃ written value, loadValue files path = .ok written ∧ Substitution.substitute vars written = .ok value ∧
    ofValue? value = some c

variable {files : FileSystem} {vars : Variables} {path : String} {c : Config} {i : Nat}

theorem holds_iff :
    Holds files vars path c ↔
      ((loadValue files path).toOption.bind fun written =>
        (Substitution.substitute vars written).toOption.bind ofValue?) = some c := by
  unfold Holds
  cases loadValue files path with
  | error failure => simp [Except.toOption]
  | ok written =>
      cases hvalue : Substitution.substitute vars written with
      | error missing => simp [Except.toOption, hvalue]
      | ok value => simp [Except.toOption, hvalue]

instance : Decidable (Holds files vars path c) := decidable_of_iff _ holds_iff.symm

/-- A configuration is made ready from any file that holds one, and from no other. -/
theorem prepare_eq_ok_iff {prepared : Prepared} :
    prepare files vars path = .ok prepared ↔
      ∃ c, Holds files vars path c ∧
        prepared = ⟨c.withDefaults.locatedAt path, (c.withDefaults.locatedAt path).report files.present⟩ := by
  unfold Holds prepare prepareValue ofFileValue
  cases hload : loadValue files path with
  | error failure => simp [bind, Except.bind]
  | ok written =>
      cases hvalue : Substitution.substitute vars written with
      | error missing => simp [hvalue, bind, Except.bind, Except.mapError]
      | ok value =>
          cases hread : ofValue? value with
          | none => simp [hvalue, hread, bind, Except.bind, Except.mapError]
          | some c => simp [hvalue, hread, bind, Except.bind, Except.mapError, pure, Except.pure, eq_comm]

/-- Paths keep the sequence of the repositories. -/
theorem getElem?_repositories_locatedAt (c : Config) (path : String) (i : Nat) :
    (c.withDefaults.locatedAt path).repositories[i]? = c.repositories[i]?.map fun r =>
      { r.withDefaults with
        dataFile := ((Path.parent? path).map fun d => Path.join d r.dataFile).getD r.dataFile } := by
  unfold locatedAt withDefaults
  cases Path.parent? path with
  | none =>
      rw [List.getElem?_map]
      rfl
  | some directory => simp [Function.comp_def, Repository.withDefaults]

/-- A data file is empty behind a path exactly if it is empty and the path has no directory. -/
theorem located_eq_empty_iff {dataFile : String} :
    ((Path.parent? path).map fun d => Path.join d dataFile).getD dataFile = "" ↔
      dataFile = "" ∧ ¬ Path.HasDirectory path := by
  rw [← Path.parent?_eq_empty_iff]
  cases Path.parent? path with
  | none => simp
  | some directory => simp [Path.join_eq_empty_iff, and_comm]

/-- A configuration that a file holds is made ready, and an empty data file of it is reported exactly if the path
of the file has no directory.  No other data file is in error. -/
theorem hasErrorAt_dataFile_iff (h : Holds files vars path c) :
    ∃ prepared, prepare files vars path = .ok prepared ∧
      ∀ i, prepared.report.HasErrorAt (repositoryPath i ++ ".dataFile") ↔
        (∃ r, c.repositories[i]? = some r ∧ r.dataFile = "") ∧ ¬ Path.HasDirectory path := by
  refine ⟨_, prepare_eq_ok_iff.2 ⟨c, h, rfl⟩, fun i => ?_⟩
  rw [hasErrorAt_field_iff, getElem?_repositories_locatedAt]
  cases c.repositories[i]? with
  | none => simp
  | some r => simp [located_eq_empty_iff]

/-- Two repositories, of which the first one has no data file to speak of and the second one refers to a variable. -/
def unnamedDataFile : FileSystem where
  present := fun _ => true
  read := fun _ => .ok "repositories:\n- dataFile: ''\n- dataFile: ${DATA}/shop.yaml\n  order: 2\n"

/-- The variable that it refers to. -/
def dataVariable : Variables := fun name => if name = "DATA" then some "/srv" else none

/-- What it holds. -/
def unnamedRepositories : Config where
  repositories := [{ dataFile := "" }, { dataFile := "/srv/shop.yaml", order := some 2 }]

theorem hasErrorAt_dataFile_iff_unnamedRepositories :
    (∃ prepared, prepare unnamedDataFile dataVariable "config.yaml" = .ok prepared ∧
      prepared.report.HasErrorAt (repositoryPath 0 ++ ".dataFile") ∧
        ¬ prepared.report.HasErrorAt (repositoryPath 1 ++ ".dataFile")) ∧
    ∃ prepared, prepare unnamedDataFile dataVariable "./config.yaml" = .ok prepared ∧
      ¬ prepared.report.HasErrorAt (repositoryPath 0 ++ ".dataFile") := by
  have hplain : Holds unnamedDataFile dataVariable "config.yaml" unnamedRepositories := by
    decide +kernel
  have hdirectory : Holds unnamedDataFile dataVariable "./config.yaml" unnamedRepositories := by
    decide +kernel
  obtain ⟨prepared, hprepared, herrors⟩ := hasErrorAt_dataFile_iff hplain
  obtain ⟨prepared', hprepared', herrors'⟩ := hasErrorAt_dataFile_iff hdirectory
  refine ⟨⟨prepared, hprepared, ?_, ?_⟩, prepared', hprepared', ?_⟩
  · exact (herrors 0).2 ⟨⟨_, rfl, rfl⟩, by decide⟩
  · intro h
    obtain ⟨⟨r, hr, hempty⟩, -⟩ := (herrors 1).1 h
    obtain rfl := Option.some.inj hr
    exact absurd hempty (by decide)
  · intro h
    exact ((herrors' 0).1 h).2 (by decide)

/-- An empty data file is not reported where the configuration file has a directory. -/
theorem not_empty_reported :
    ¬ ∀ (files : FileSystem) (vars : Variables) (path : String) (c : Config) (prepared : Prepared),
      Holds files vars path c → prepare files vars path = .ok prepared →
        ∀ i, prepared.report.HasErrorAt (repositoryPath i ++ ".dataFile") ↔
          ∃ r, c.repositories[i]? = some r ∧ r.dataFile = "" := by
  intro h
  have hholds : Holds unnamedDataFile dataVariable "conf/config.yaml" unnamedRepositories := by
    decide +kernel
  have hprepared := prepare_eq_ok_iff.2 ⟨_, hholds, rfl⟩
  have hreported := (h _ _ _ _ _ hholds hprepared 0).2 ⟨_, rfl, rfl⟩
  exact absurd hreported (by decide)

end LayeredConfig.Config
