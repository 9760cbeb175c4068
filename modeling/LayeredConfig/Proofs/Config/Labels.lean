import LayeredConfig.Proofs.Composite.Resolution
import LayeredConfig.Proofs.Config.Composite
import LayeredConfig.Proofs.Config.Report
import LayeredConfig.Proofs.Lookup.Expansion

/-!
# Default labels

A request without a label is served under the default label of a repository, which has to hold a word for that.
The report on a configuration looks for default labels without one, but it takes white space around a single
comma for the only form of them.  A label of two commas and more passes, and requests are refused later on.

* `UnusableLabel` — the default labels under which requests without a label are refused.
* `isBlankLabel_iff` — which of these labels a report finds.
* `lookupKeys_eq_noLabel_iff`, `lookupKeys_of_resolve_eq_noLabel` — the members that refuse a request.
* `defaultLabel_error_iff` — the errors in a report, and the requests that are refused without any.
-/

namespace LayeredConfig

/-- A default label under which requests without a label are refused. -/
def UnusableLabel (label : String) : Prop :=
  ∃ problem, ({ defaultLabel := label } : Expander).labels "" = .error problem

variable {label : String}

theorem unusableLabel_iff : UnusableLabel label ↔ commaWords label = [] := by
  simp only [UnusableLabel, Expander.labels_eq_error_iff]
  constructor
  · rintro ⟨problem, rfl, -, h⟩
    exact h
  · intro h
    exact ⟨_, rfl, by decide, h⟩

instance : DecidablePred UnusableLabel := fun _ => decidable_of_iff _ unusableLabel_iff.symm

/-- A report finds the labels without a word that hold one comma at most. -/
theorem isBlankLabel_iff :
    Config.isBlankLabel label = true ↔ UnusableLabel label ∧ label.toList.count ',' ≤ 1 := by
  have hsplit : Config.isBlankLabel label = true ↔
      Text.trim label.toList = [] ∨ Text.trim label.toList = [','] := by
    simp [Config.isBlankLabel]
  rw [hsplit, Text.trim_eq_nil_iff, Text.trim_eq_singleton_iff (by decide), unusableLabel_iff,
    commaWords_eq_nil_iff]
  constructor
  · rintro (hblank | ⟨hchars, hone⟩)
    · refine ⟨fun c hc => .inr (hblank c hc), ?_⟩
      have hnone : ',' ∉ label.toList := fun hcomma => absurd (hblank _ hcomma) (by decide)
      rw [List.count_eq_zero_of_not_mem hnone]
      omega
    · exact ⟨hchars, hone.le⟩
  · rintro ⟨hchars, hcount⟩
    rcases Nat.le_one_iff_eq_zero_or_eq_one.1 hcount with hnone | hone
    · left
      intro c hc
      refine (hchars c hc).resolve_left ?_
      rintro rfl
      exact List.count_eq_zero.1 hnone hc
    · exact .inr ⟨hchars, hone⟩

example : Config.isBlankLabel " , " = true ∧ Config.isBlankLabel " ,, " = false := by decide

/-! ## Requests that are refused -/

section Requests

variable {request : Request} {composite : Composite} {members : List Member} {member : Member}
variable {asked : List (String × Lookup)}

theorem mapError_eq_error_iff {ε ε' α : Type} {f : ε → ε'} {x : Except ε α} {e : ε'} :
    x.mapError f = .error e ↔ ∃ cause, x = .error cause ∧ e = f cause := by
  cases x <;> simp [Except.mapError, eq_comm]

theorem Aggregator.lookupKeys_eq_error_iff {aggregator : Aggregator} {failure : Failure} :
    aggregator.lookupKeys request = .error failure ↔
      failure = .invalidRequest .blankApplication ∧ commaWords request.application = [] ∨
        failure = .invalidRequest .noLabel ∧ commaWords request.application ≠ [] ∧
          commaWords request.labelText = [] ∧ UnusableLabel aggregator.provider.defaultLabel := by
  rw [lookupKeys, mapError_eq_error_iff, unusableLabel_iff]
  simp only [Expander.keysOf, Expander.expand_eq_error_iff]
  constructor
  · rintro ⟨problem, ⟨rfl, h⟩ | ⟨rfl, h⟩, rfl⟩
    · exact .inl ⟨rfl, h⟩
    · exact .inr ⟨rfl, h⟩
  · rintro (⟨rfl, h⟩ | ⟨rfl, h⟩)
    · exact ⟨_, .inl ⟨rfl, h⟩, rfl⟩
    · exact ⟨_, .inr ⟨rfl, h⟩, rfl⟩

namespace Composite

/-- A member whose default label is unusable refuses requests that name an application and no label. -/
theorem lookupKeys_eq_noLabel_iff :
    composite.lookupKeys request = .error (.invalidRequest .noLabel) ↔
      commaWords request.application ≠ [] ∧ commaWords request.labelText = [] ∧
        ∃ m ∈ composite.members, UnusableLabel m.aggregator.provider.defaultLabel := by
  obtain ⟨members, acceptEmpty⟩ := composite
  induction members with
  | nil => simp [lookupKeys, pure, Except.pure]
  | cons m members ih =>
      have hm : ∀ failure, m.aggregator.lookupKeys request = .error failure ↔ _ :=
        fun failure => Aggregator.lookupKeys_eq_error_iff
      simp only [List.exists_mem_cons_iff]
      unfold lookupKeys at ih ⊢
      rw [List.mapM_cons]
      cases hkeys : m.aggregator.lookupKeys request with
      | error failure =>
          have hfailure := (hm failure).1 hkeys
          change Except.error failure = _ ↔ _
          grind
      | ok keys =>
          have hserved := mt (hm (.invalidRequest .noLabel)).2 (by simp [hkeys])
          -- the first member serves the request, so that the others decide
          cases hrest : members.mapM fun m => do
              let keys ← m.aggregator.lookupKeys request
              return (m.aggregator.provider.name, keys) with
          | error failure =>
              rw [hrest] at ih
              change Except.error failure = _ ↔ _
              grind
          | ok rest =>
              rw [hrest] at ih
              change Except.ok ((m.aggregator.provider.name, keys) :: rest) = _ ↔ _
              grind

/-- What ends a resolution for lack of a label is the expansion of the request for a member. -/
theorem Tours.lookupKeys_of_noLabel
    (h : Tours request members asked (.error (.invalidRequest .noLabel))) :
    ∃ m ∈ members, m.aggregator.lookupKeys request = .error (.invalidRequest .noLabel) := by
  generalize houtcome :
    (Except.error (.invalidRequest .noLabel) : Except Failure (List PropertySource)) = outcome at h
  induction h with
  | done => contradiction
  | @stopped m rest fetched failure hvisit =>
      obtain rfl := Except.error.inj houtcome
      cases hvisit with
      | unexpanded hkeys => exact ⟨m, List.mem_cons_self, hkeys⟩
      | refused hkeys hlookups hbefore hlookup =>
          -- a lookup that is refused is reported as a retrieval
          unfold Provider.refusal? at hlookup
          grind
  | @passed m rest fetched sources asked outcome hvisit hrest ih =>
      cases outcome with
      | error failure =>
          obtain ⟨m', hm', hkeys⟩ := ih houtcome
          exact ⟨m', List.mem_cons_of_mem m hm', hkeys⟩
      | ok later => contradiction

/-- A resolution that fails for lack of a label has an expansion that fails for it. -/
theorem lookupKeys_of_resolve_eq_noLabel
    (h : (composite.resolve request).outcome = .error (.invalidRequest .noLabel)) :
    composite.lookupKeys request = .error (.invalidRequest .noLabel) := by
  obtain ⟨asked, outcome, hresolves⟩ := exists_resolves composite request
  rw [hresolves.resolve_eq] at h
  subst h
  cases hresolves with
  | failed htour =>
      obtain ⟨m, hm, hkeys⟩ := htour.lookupKeys_of_noLabel
      rcases Aggregator.lookupKeys_eq_error_iff.1 hkeys with ⟨hfailure, -⟩ | ⟨-, happ, hlabel, hunusable⟩
      · simp at hfailure
      · exact lookupKeys_eq_noLabel_iff.2 ⟨happ, hlabel, m, hm, hunusable⟩

/-- A request is resolved only if it can be expanded. -/
theorem exists_lookupKeys_of_resolve_eq_ok {env : Environment}
    (h : (composite.resolve request).outcome = .ok env) :
    ∃ keys, composite.lookupKeys request = .ok keys := by
  obtain ⟨asked, outcome, hresolves⟩ := exists_resolves composite request
  rw [hresolves.resolve_eq] at h
  subst h
  cases hresolves with
  | answered htour hfound =>
      obtain ⟨keys, hkeys, -⟩ := htour.exists_keys composite.acceptEmpty
      exact ⟨keys, hkeys⟩

end Composite

end Requests

/-! ## The tables of a configuration -/

namespace Config

variable {files : FileSystem} {c : Config} {r : Repository} {m : Member} {result : LayeredConfig.Composite}

theorem settings_load {settings : TableSettings} {path : String} {table : Table}
    (h : Table.load files settings path = .ok table) : table.settings = settings := by
  unfold Table.load at h
  split at h
  · contradiction
  · split at h
    · next hparse =>
        obtain rfl := Except.ok.inj h
        obtain ⟨file, -, rfl⟩ := Option.map_eq_some_iff.1 hparse
        rfl
    · contradiction

theorem defaultLabel_dataFileMember {path : String} (h : dataFileMember files path = .ok m) :
    m.aggregator.provider.defaultLabel = standardLabel := by
  obtain ⟨table, hload, rfl⟩ := dataFileMember_eq_ok_iff.1 h
  show table.settings.defaultLabel = standardLabel
  rw [settings_load hload]

theorem defaultLabel_repositoryMember (h : repositoryMember files r = .ok m) :
    m.aggregator.provider.defaultLabel = r.defaultLabel.getD standardLabel := by
  obtain ⟨table, hload, rfl⟩ := repositoryMember_eq_ok_iff.1 h
  show table.settings.defaultLabel = r.defaultLabel.getD standardLabel
  rw [settings_load hload]
  rfl

theorem exists_mem_iff_of_forall₂ {α β : Type} {R : α → β → Prop} {p : α → Prop} {q : β → Prop}
    (hpq : ∀ a b, R a b → (p a ↔ q b)) {as : List α} {bs : List β} (h : List.Forall₂ R as bs) :
    (∃ a ∈ as, p a) ↔ ∃ b ∈ bs, q b := by
  induction h with
  | nil => simp
  | cons hab _ ih => rw [List.exists_mem_cons_iff, List.exists_mem_cons_iff, hpq _ _ hab, ih]

/-- The members with an unusable default label are the repositories that chose one. -/
theorem exists_unusable_iff {dataFiles : List String} (h : composite files c dataFiles = .ok result) :
    (∃ m ∈ result.members, UnusableLabel m.aggregator.provider.defaultLabel) ↔
      ∃ r ∈ c.repositories, ∃ label, r.defaultLabel = some label ∧ UnusableLabel label := by
  obtain ⟨further, configured, hfurther, hconfigured, rfl⟩ := composite_eq_ok_iff.1 h
  have hstandard : ¬ UnusableLabel standardLabel := by decide
  have hnone : ∀ m ∈ further, ¬ UnusableLabel m.aggregator.provider.defaultLabel := by
    refine forall_of_forall₂ (fun path m hload => ?_) hfurther
    rwa [defaultLabel_dataFileMember hload]
  have hchosen : (∃ r ∈ c.repositories, ∃ label, r.defaultLabel = some label ∧ UnusableLabel label) ↔
      ∃ m ∈ configured, UnusableLabel m.aggregator.provider.defaultLabel := by
    refine exists_mem_iff_of_forall₂ (fun r m hload => ?_) hconfigured
    rw [defaultLabel_repositoryMember hload]
    cases r.defaultLabel <;> simp [hstandard]
  rw [hchosen, LayeredConfig.Composite.members_foldl_add]
  simp only [List.mem_mergeSort, List.mem_append]
  constructor
  · rintro ⟨m, hm | hm, hunusable⟩
    · exact absurd hunusable (hnone m hm)
    · exact ⟨m, hm, hunusable⟩
  · rintro ⟨m, hm, hunusable⟩
    exact ⟨m, .inr hm, hunusable⟩

/-- A default label without a word is reported if it has one comma at most.  Under a configuration without errors,
a request cannot be expanded for lack of a label exactly if it names none and a repository has a default label
without a word and with two commas or more.  Resolutions fail for this reason only with such a request, and none
of such a request succeeds. -/
theorem defaultLabel_error_iff (present : String → Bool) (c : Config) :
    (∀ i, (c.report present).HasErrorAt (repositoryPath i ++ ".defaultLabel") ↔
      ∃ r label, c.repositories[i]? = some r ∧ r.defaultLabel = some label ∧ UnusableLabel label ∧
        label.toList.count ',' ≤ 1) ∧
    ((c.report present).isValid = true →
      ∀ (files : FileSystem) (dataFiles : List String) (result : LayeredConfig.Composite) (request : Request),
        composite files c dataFiles = .ok result →
        (result.lookupKeys request = .error (.invalidRequest .noLabel) ↔
          commaWords request.application ≠ [] ∧ commaWords request.labelText = [] ∧
            ∃ r ∈ c.repositories, ∃ label, r.defaultLabel = some label ∧ UnusableLabel label ∧
              1 < label.toList.count ',') ∧
        ((result.resolve request).outcome = .error (.invalidRequest .noLabel) →
          result.lookupKeys request = .error (.invalidRequest .noLabel)) ∧
        (result.lookupKeys request = .error (.invalidRequest .noLabel) →
          ∀ e, (result.resolve request).outcome ≠ .ok e)) := by
  have hreported : ∀ i, (c.report present).HasErrorAt (repositoryPath i ++ ".defaultLabel") ↔
      ∃ r label, c.repositories[i]? = some r ∧ r.defaultLabel = some label ∧ UnusableLabel label ∧
        label.toList.count ',' ≤ 1 := by
    intro i
    rw [hasErrorAt_field_iff]
    simp [Option.any_eq_true, isBlankLabel_iff]
  refine ⟨hreported, fun hvalid files dataFiles result request hload => ?_⟩
  have hmany : ∀ r ∈ c.repositories, ∀ label, r.defaultLabel = some label → UnusableLabel label →
      1 < label.toList.count ',' := by
    intro r hr label hlabel hunusable
    by_contra hfew
    obtain ⟨i, hi⟩ := List.mem_iff_getElem?.1 hr
    obtain ⟨f, hf, -⟩ := (hreported i).2 ⟨r, label, hi, hlabel, hunusable, Nat.not_lt.1 hfew⟩
    rw [Report.isValid, List.isEmpty_iff] at hvalid
    rw [hvalid] at hf
    contradiction
  have hkeys : result.lookupKeys request = .error (.invalidRequest .noLabel) ↔ _ :=
    Composite.lookupKeys_eq_noLabel_iff
  rw [exists_unusable_iff hload] at hkeys
  refine ⟨?_, Composite.lookupKeys_of_resolve_eq_noLabel, fun hrefused e houtcome => ?_⟩
  · rw [hkeys]
    grind
  · obtain ⟨keys, hexpanded⟩ := Composite.exists_lookupKeys_of_resolve_eq_ok houtcome
    rw [hexpanded] at hrefused
    contradiction

theorem exists_eq_ok_of_isOk {ε α : Type} {x : Except ε α} (h : x.isOk = true) : ∃ a, x = .ok a := by
  cases x with
  | error e => contradiction
  | ok a => exact ⟨a, rfl⟩

theorem eq_error_of_map {ε α β : Type} {f : α → β} {x : Except ε α} {e : ε}
    (h : x.map f = .error e) : x = .error e := by
  cases x with
  | error cause => exact congrArg _ (Except.error.inj h)
  | ok a => contradiction

/-- Files that all hold a table of one row. -/
def oneRowFiles : FileSystem where
  present := fun _ => true
  read := fun _ => .ok "rows:\n- {application: shop, label: main, key: a, value: 1}\n"

/-- Three repositories: one with a default label, one without, and one whose default label is two commas with
white space around them. -/
def commaLabels : Config where
  repositories := [
    { dataFile := "a.yaml", defaultLabel := some "main, next" },
    { dataFile := "b.yaml" },
    { dataFile := "c.yaml", defaultLabel := some " ,\t, " }]

/-- A request of two applications that names no label. -/
def unlabelledRequest : Request := ⟨"shop,cart", "dev", some " , "⟩

theorem defaultLabel_error_iff_commaLabels :
    (∀ i, ¬ (commaLabels.report oneRowFiles.present).HasErrorAt (repositoryPath i ++ ".defaultLabel")) ∧
    (commaLabels.report oneRowFiles.present).isValid = true ∧
    ∃ result, composite oneRowFiles commaLabels ["d.yaml"] = .ok result ∧
      result.lookupKeys unlabelledRequest = .error (.invalidRequest .noLabel) ∧
        ∀ e, (result.resolve unlabelledRequest).outcome ≠ .ok e := by
  obtain ⟨hreported, hrefused⟩ := defaultLabel_error_iff oneRowFiles.present commaLabels
  have hvalid : (commaLabels.report oneRowFiles.present).isValid = true := by decide
  obtain ⟨result, hload⟩ : ∃ result, composite oneRowFiles commaLabels ["d.yaml"] = .ok result :=
    exists_eq_ok_of_isOk (by decide +kernel)
  obtain ⟨hkeys, -, hfails⟩ := hrefused hvalid oneRowFiles ["d.yaml"] result unlabelledRequest hload
  have hexpanded := hkeys.2 ⟨by decide, by decide, { dataFile := "c.yaml", defaultLabel := some " ,\t, " },
    by decide, _, rfl, by decide, by decide⟩
  refine ⟨fun i hi => ?_, hvalid, result, hload, hexpanded, hfails hexpanded⟩
  -- no repository has an unusable label of one comma at most
  obtain ⟨r, label, hr, hlabel, hunusable, hcount⟩ := (hreported i).1 hi
  have hnone : ∀ r ∈ commaLabels.repositories, ∀ label ∈ r.defaultLabel,
      UnusableLabel label → 1 < label.toList.count ',' := by decide
  have hmany := hnone r (List.mem_of_getElem? hr) label hlabel hunusable
  omega

/-- A repository whose default label is two commas. -/
def twoCommas : Repository := { dataFile := "a.yaml", defaultLabel := some ",," }

/-- A default label of two commas is not reported, and there is a configuration without errors under which a
request is refused for lack of a label. -/
theorem not_unusable_reported :
    (¬ ∀ (present : String → Bool) (c : Config) (i : Nat) (r : Repository) (label : String),
      c.repositories[i]? = some r → r.defaultLabel = some label →
        ((c.report present).HasErrorAt (repositoryPath i ++ ".defaultLabel") ↔ UnusableLabel label)) ∧
    ¬ ∀ (files : FileSystem) (c : Config) (result : LayeredConfig.Composite) (request : Request),
      (c.report files.present).isValid = true → composite files c [] = .ok result →
        (result.resolve request).outcome ≠ .error (.invalidRequest .noLabel) := by
  constructor
  · intro h
    have hreported := h oneRowFiles.present { repositories := [twoCommas] } 0 twoCommas ",," rfl rfl
    exact absurd (hreported.2 (by decide)) (by decide)
  · intro h
    obtain ⟨result, hload⟩ :
        ∃ result, composite oneRowFiles { repositories := [twoCommas] } [] = .ok result :=
      exists_eq_ok_of_isOk (by decide +kernel)
    have hrun : (composite oneRowFiles { repositories := [twoCommas] } [] >>= fun result =>
        .ok ((result.resolve unlabelledRequest).outcome.map fun _ => ())) =
          .ok (.error (.invalidRequest .noLabel)) := by decide +kernel
    rw [hload] at hrun
    refine h oneRowFiles { repositories := [twoCommas] } result unlabelledRequest (by decide) hload ?_
    exact eq_error_of_map (Except.ok.inj hrun)

end Config

end LayeredConfig
