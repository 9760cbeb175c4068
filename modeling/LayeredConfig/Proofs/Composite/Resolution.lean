import LayeredConfig.CommandLine.Run
import LayeredConfig.Proofs.Composite.Sources

/-!
# How a composite is resolved

Members are visited in order.  A visit asks the member's provider for its lookups one after another, up to
the first failure that the provider does not tolerate; it also fails when nothing is found where something
is required.  The first visit that fails ends the resolution.  Where none does, what has been asked is
what an expansion of the request shows.

* `Aggregator.Visits` — what a visit asks for and comes to.
* `Composite.Tours` — the visits of several members.
* `Composite.Resolves` — the resolution of a request.
* `Composite.resolve_eq_iff` — the resolution is this one and no other.
* `Composite.resolve_spec` — with the agreement with the rows of an expansion.
-/

namespace LayeredConfig

namespace Provider

/-- The failure by which a lookup ends a resolution. -/
def refusal? (provider : Provider) (lookup : Lookup) : Option Failure :=
  match provider.fetch lookup with
  | .failed causes =>
    if provider.failOnError then some (.retrieval lookup.sourceName causes) else none
  | _ => none

/-- The source that a lookup adds, under the name of its application and profile. -/
def found? (provider : Provider) (lookup : Lookup) : Option PropertySource :=
  match provider.fetch lookup with
  | .source properties =>
    if properties.isEmpty then none else some ⟨lookup.sourceName, properties⟩
  | _ => none

variable {provider : Provider} {lookup : Lookup} {lookups before after : List Lookup}
variable {failure : Failure}

/-! ## One provider -/

theorem name_of_found? {source : PropertySource} (h : provider.found? lookup = some source) :
    source.name = lookup.sourceName := by
  rw [found?] at h
  split at h
  · split_ifs at h
    rw [← Option.some.inj h]
  · contradiction

/-- A lookup that is refused is the last one. -/
theorem collect_cons_of_refused (h : provider.refusal? lookup = some failure) (rest : List Lookup) :
    provider.collect (lookup :: rest) = ⟨[lookup], .error failure⟩ := by
  rw [refusal?] at h
  rw [collect]
  split at h
  · next hfetch =>
      split_ifs at h with hfail
      rw [hfetch, ← Option.some.inj h]
      simp [hfail]
  · contradiction

/-- After any other lookup the rest is asked for. -/
theorem collect_cons_of_tolerated (h : provider.refusal? lookup = none) (rest : List Lookup) :
    provider.collect (lookup :: rest) =
      ⟨lookup :: (provider.collect rest).fetched,
        (provider.collect rest).outcome.map ((provider.found? lookup).toList ++ ·)⟩ := by
  have hmap (outcome : Except Failure (List PropertySource)) :
      outcome.map (([] : List PropertySource) ++ ·) = outcome := by
    cases outcome <;> rfl
  rw [collect, found?]
  cases hfetch : provider.fetch lookup with
  | source properties =>
      by_cases hempty : properties.isEmpty = true
      · simp only [hempty, if_true, Option.toList_none, hmap]
      · simp only [hempty]
        rfl
  | absent => simp only [Option.toList_none, hmap]
  | failed causes =>
      have hfail : provider.failOnError = false := by
        rw [refusal?, hfetch] at h
        simpa using h
      simp only [hfail, Option.toList_none, hmap]
      rfl

theorem collect_of_tolerated (h : ∀ lookup ∈ lookups, provider.refusal? lookup = none) :
    provider.collect lookups = ⟨lookups, .ok (lookups.filterMap provider.found?)⟩ := by
  induction lookups with
  | nil => rfl
  | cons lookup rest ih =>
      rw [List.forall_mem_cons] at h
      rw [collect_cons_of_tolerated h.1, ih h.2, List.filterMap_cons]
      cases provider.found? lookup <;> rfl

/-- The first lookup that is refused ends the collection. -/
theorem collect_of_refused (hbefore : ∀ lookup ∈ before, provider.refusal? lookup = none)
    (h : provider.refusal? lookup = some failure) :
    provider.collect (before ++ lookup :: after) = ⟨before ++ [lookup], .error failure⟩ := by
  induction before with
  | nil => exact collect_cons_of_refused h after
  | cons first before ih =>
      rw [List.forall_mem_cons] at hbefore
      rw [List.cons_append, collect_cons_of_tolerated hbefore.1, ih hbefore.2]
      rfl

/-- Either no lookup is refused, or there is a first one. -/
theorem tolerated_or_refused (provider : Provider) (lookups : List Lookup) :
    (∀ lookup ∈ lookups, provider.refusal? lookup = none) ∨
      ∃ before lookup after failure, lookups = before ++ lookup :: after ∧
        (∀ lookup ∈ before, provider.refusal? lookup = none) ∧
          provider.refusal? lookup = some failure := by
  cases h : lookups.findSome? provider.refusal? with
  | none => exact .inl (List.findSome?_eq_none_iff.1 h)
  | some failure =>
      obtain ⟨before, lookup, after, hsplit, hlookup, hbefore⟩ := List.findSome?_eq_some_iff.1 h
      exact .inr ⟨before, lookup, after, failure, hsplit, hbefore, hlookup⟩

/-- Sources are found in the order of the lookups. -/
theorem sublist_names_found? (provider : Provider) (lookups : List Lookup) :
    ((lookups.filterMap provider.found?).map PropertySource.name).Sublist
      (lookups.map Lookup.sourceName) := by
  induction lookups with
  | nil => exact List.Sublist.slnil
  | cons lookup rest ih =>
      rw [List.filterMap_cons]
      cases h : provider.found? lookup with
      | none => exact ih.cons _
      | some source =>
          rw [List.map_cons, List.map_cons, name_of_found? h]
          exact ih.cons_cons _

end Provider

/-! ## One member -/

namespace Aggregator

/-- What a visit asks for, and what it comes to. -/
inductive Visits (request : Request) (aggregator : Aggregator) :
    List Lookup → Except Failure (List PropertySource) → Prop where
  /-- A request that cannot be expanded asks for nothing. -/
  | unexpanded {failure : Failure} (hkeys : aggregator.lookupKeys request = .error failure) :
    Visits request aggregator [] (.error failure)
  /-- The first lookup that is refused is the last one. -/
  | refused {keys : LookupKeys} {before after : List Lookup} {lookup : Lookup} {failure : Failure}
    (hkeys : aggregator.lookupKeys request = .ok keys)
    (hlookups : keys.lookups = before ++ lookup :: after)
    (hbefore : ∀ l ∈ before, aggregator.provider.refusal? l = none)
    (hlookup : aggregator.provider.refusal? lookup = some failure) :
    Visits request aggregator (before ++ [lookup]) (.error failure)
  /-- Nothing is found where something is required. -/
  | missing {keys : LookupKeys} (hkeys : aggregator.lookupKeys request = .ok keys)
    (hlookups : ∀ l ∈ keys.lookups, aggregator.provider.refusal? l = none)
    (hnone : keys.lookups.filterMap aggregator.provider.found? = [])
    (hrequired : aggregator.acceptEmpty = false) :
    Visits request aggregator keys.lookups (.error (.notFound request))
  /-- All lookups are made, and what they find is kept in their order. -/
  | answered {keys : LookupKeys} (hkeys : aggregator.lookupKeys request = .ok keys)
    (hlookups : ∀ l ∈ keys.lookups, aggregator.provider.refusal? l = none)
    (hfound : aggregator.acceptEmpty = true ∨
      keys.lookups.filterMap aggregator.provider.found? ≠ []) :
    Visits request aggregator keys.lookups
      (.ok (keys.lookups.filterMap aggregator.provider.found?))

variable {request : Request} {aggregator : Aggregator} {fetched : List Lookup}
variable {outcome : Except Failure (List PropertySource)}

theorem Visits.collect_eq (h : Visits request aggregator fetched outcome) :
    aggregator.collect request = ⟨fetched, outcome⟩ := by
  cases h with
  | unexpanded hkeys => rw [collect, hkeys]
  | refused hkeys hlookups hbefore hlookup =>
      rw [collect, hkeys]
      simp only [hlookups, Provider.collect_of_refused hbefore hlookup]
      rfl
  | missing hkeys hlookups hnone hrequired =>
      rw [collect, hkeys]
      simp only [Provider.collect_of_tolerated hlookups, hnone, hrequired]
      rfl
  | answered hkeys hlookups hfound =>
      rw [collect, hkeys]
      simp only [Provider.collect_of_tolerated hlookups]
      congr 1
      exact nonempty_eq_ok_iff.2 ⟨_, rfl, hfound, rfl⟩

theorem visits_collect (request : Request) (aggregator : Aggregator) :
    Visits request aggregator (aggregator.collect request).fetched
      (aggregator.collect request).outcome := by
  have hexists : ∃ fetched outcome, Visits request aggregator fetched outcome := by
    cases hkeys : aggregator.lookupKeys request with
    | error failure => exact ⟨_, _, .unexpanded hkeys⟩
    | ok keys =>
        rcases aggregator.provider.tolerated_or_refused keys.lookups with
          hlookups | ⟨before, lookup, after, failure, hsplit, hbefore, hlookup⟩
        · by_cases hfound : aggregator.acceptEmpty = true ∨
            keys.lookups.filterMap aggregator.provider.found? ≠ []
          · exact ⟨_, _, .answered hkeys hlookups hfound⟩
          · rw [not_or, not_not, Bool.not_eq_true] at hfound
            exact ⟨_, _, .missing hkeys hlookups hfound.2 hfound.1⟩
        · exact ⟨_, _, .refused hkeys hsplit hbefore hlookup⟩
  obtain ⟨fetched, outcome, h⟩ := hexists
  rw [h.collect_eq]
  exact h

/-- A visit that succeeds has made all lookups of the member. -/
theorem Visits.exists_keys {sources : List PropertySource}
    (h : Visits request aggregator fetched (.ok sources)) :
    ∃ keys, aggregator.lookupKeys request = .ok keys ∧ fetched = keys.lookups ∧
      sources = keys.lookups.filterMap aggregator.provider.found? := by
  cases h with
  | answered hkeys hlookups hfound => exact ⟨_, hkeys, rfl, rfl⟩

end Aggregator

/-! ## Several members -/

namespace Composite

/-- Lookups under the name of the member's provider. -/
def named (member : Member) (fetched : List Lookup) : List (String × Lookup) :=
  fetched.map fun lookup => (member.aggregator.provider.name, lookup)

/-- What visiting members in order asks for, and what it comes to. -/
inductive Tours (request : Request) :
    List Member → List (String × Lookup) → Except Failure (List PropertySource) → Prop where
  | done : Tours request [] [] (.ok [])
  /-- A visit that fails is the last one. -/
  | stopped {member : Member} {rest : List Member} {fetched : List Lookup} {failure : Failure}
    (hvisit : member.aggregator.Visits request fetched (.error failure)) :
    Tours request (member :: rest) (named member fetched) (.error failure)
  /-- What later members find stands behind what a member finds. -/
  | passed {member : Member} {rest : List Member} {fetched : List Lookup}
    {sources : List PropertySource} {asked : List (String × Lookup)}
    {outcome : Except Failure (List PropertySource)}
    (hvisit : member.aggregator.Visits request fetched (.ok sources))
    (hrest : Tours request rest asked outcome) :
    Tours request (member :: rest) (named member fetched ++ asked) (outcome.map (sources ++ ·))

/-- What resolving a request asks for, and what it comes to. -/
inductive Resolves (composite : Composite) (request : Request) :
    List (String × Lookup) → Except Failure Environment → Prop where
  | failed {asked : List (String × Lookup)} {failure : Failure}
    (htour : Tours request composite.members asked (.error failure)) :
    Resolves composite request asked (.error failure)
  /-- Nothing is found where something is required. -/
  | missing {asked : List (String × Lookup)}
    (htour : Tours request composite.members asked (.ok []))
    (hrequired : composite.acceptEmpty = false) :
    Resolves composite request asked (.error (.notFound request))
  | answered {asked : List (String × Lookup)} {sources : List PropertySource}
    (htour : Tours request composite.members asked (.ok sources))
    (hfound : composite.acceptEmpty = true ∨ sources ≠ []) :
    Resolves composite request asked (.ok { Environment.ofRequest request with sources })

variable {request : Request} {composite : Composite} {members : List Member} {member : Member}
variable {asked : List (String × Lookup)} {fetched : List Lookup} {sources : List PropertySource}

@[simp] theorem map_snd_named : (named member fetched).map Prod.snd = fetched := by
  rw [named, List.map_map]
  exact List.map_id fetched

theorem Tours.collect_eq {outcome : Except Failure (List PropertySource)}
    (h : Tours request members asked outcome) :
    collect request members = ⟨asked.map Prod.snd, outcome⟩ := by
  induction h with
  | done => rfl
  | stopped hvisit => simp only [collect, hvisit.collect_eq, map_snd_named]
  | passed hvisit hrest ih =>
      simp only [collect, hvisit.collect_eq, ih, List.map_append, map_snd_named]

theorem exists_tours (request : Request) (members : List Member) :
    ∃ asked outcome, Tours request members asked outcome := by
  induction members with
  | nil => exact ⟨_, _, .done⟩
  | cons member rest ih =>
      obtain ⟨asked, outcome, hrest⟩ := ih
      have hvisit := Aggregator.visits_collect request member.aggregator
      cases houtcome : (member.aggregator.collect request).outcome with
      | error failure =>
          rw [houtcome] at hvisit
          exact ⟨_, _, .stopped hvisit⟩
      | ok sources =>
          rw [houtcome] at hvisit
          exact ⟨_, _, .passed hvisit hrest⟩

theorem Resolves.resolve_eq {outcome : Except Failure Environment}
    (h : Resolves composite request asked outcome) :
    composite.resolve request = ⟨asked.map Prod.snd, outcome⟩ := by
  cases h with
  | failed htour =>
      simp only [resolve, htour.collect_eq]
      rfl
  | missing htour hrequired =>
      simp only [resolve, htour.collect_eq, hrequired]
      rfl
  | answered htour hfound =>
      simp only [resolve, htour.collect_eq]
      congr 1
      exact nonempty_eq_ok_iff.2 ⟨_, rfl, hfound, rfl⟩

theorem exists_resolves (composite : Composite) (request : Request) :
    ∃ asked outcome, Resolves composite request asked outcome := by
  obtain ⟨asked, outcome, htour⟩ := exists_tours request composite.members
  cases outcome with
  | error failure => exact ⟨_, _, .failed htour⟩
  | ok sources =>
      by_cases hfound : composite.acceptEmpty = true ∨ sources ≠ []
      · exact ⟨_, _, .answered htour hfound⟩
      · rw [not_or, not_not, Bool.not_eq_true] at hfound
        obtain ⟨hrequired, rfl⟩ := hfound
        exact ⟨_, _, .missing htour hrequired⟩

/-- A request is resolved in this way and in no other. -/
theorem resolve_eq_iff {outcome : Except Failure Environment} :
    composite.resolve request = ⟨fetched, outcome⟩ ↔
      ∃ asked, Resolves composite request asked outcome ∧ fetched = asked.map Prod.snd := by
  constructor
  · intro h
    obtain ⟨asked, outcome', hresolves⟩ := exists_resolves composite request
    rw [hresolves.resolve_eq] at h
    obtain ⟨rfl, rfl⟩ := Attempt.mk.inj h
    exact ⟨asked, hresolves, rfl⟩
  · rintro ⟨asked, hresolves, rfl⟩
    exact hresolves.resolve_eq

/-! ## Agreement with an expansion -/

variable {keys : LookupKeys} {rest : List (String × LookupKeys)} {acceptEmpty : Bool}

theorem lookupKeys_cons (hkeys : member.aggregator.lookupKeys request = .ok keys)
    (hrest : lookupKeys ⟨members, acceptEmpty⟩ request = .ok rest) :
    lookupKeys ⟨member :: members, acceptEmpty⟩ request =
      .ok ((member.aggregator.provider.name, keys) :: rest) := by
  rw [lookupKeys] at hrest ⊢
  rw [List.mapM_cons, hkeys, hrest]
  rfl

/-- Members that are all passed have been asked for the rows of an expansion. -/
theorem Tours.exists_keys (h : Tours request members asked (.ok sources)) (acceptEmpty : Bool) :
    ∃ keys, lookupKeys ⟨members, acceptEmpty⟩ request = .ok keys ∧
      asked = (keys.flatMap fun k => k.2.lookups.map fun lookup => (k.1, lookup)) ∧
        (sources.map PropertySource.name).Sublist (asked.map fun a => a.2.sourceName) := by
  generalize houtcome : (Except.ok sources : Except Failure (List PropertySource)) = outcome at h
  induction h generalizing sources with
  | done =>
      obtain rfl := Except.ok.inj houtcome
      exact ⟨[], rfl, rfl, List.Sublist.slnil⟩
  | stopped hvisit => contradiction
  | @passed member members fetched found asked outcome hvisit hrest ih =>
      obtain ⟨later, rfl, rfl⟩ := map_eq_ok.1 houtcome.symm
      obtain ⟨rest, hlater, rfl, hnames⟩ := ih rfl
      obtain ⟨keys, hkeys, rfl, rfl⟩ := hvisit.exists_keys
      refine ⟨_, lookupKeys_cons hkeys hlater, rfl, ?_⟩
      rw [List.map_append, List.map_append, named, List.map_map]
      exact (Provider.sublist_names_found? _ _).append hnames

/-- Resolving a request.  It visits the members in order, up to the first that fails, in no other way than
`Resolves` says.  Where it succeeds, the lookups that were made are the rows of an expansion, and the
sources stand in the order of these rows. -/
theorem resolve_spec (composite : Composite) (request : Request) :
    (∀ fetched outcome, composite.resolve request = ⟨fetched, outcome⟩ ↔
        ∃ asked, Resolves composite request asked outcome ∧ fetched = asked.map Prod.snd) ∧
      ∀ env, (composite.resolve request).outcome = .ok env →
        ∃ asked keys, Resolves composite request asked (.ok env) ∧
          composite.lookupKeys request = .ok keys ∧
          (composite.resolve request).fetched = asked.map Prod.snd ∧
          (asked.map fun a => CommandLine.lookupRow a.1 a.2) = CommandLine.lookupRows keys ∧
            (env.sources.map fun source => some source.name).Sublist
              ((CommandLine.lookupRows keys).map List.getLast?) := by
  refine ⟨fun fetched outcome => resolve_eq_iff, fun env henv => ?_⟩
  obtain ⟨asked, hresolves, hasked⟩ := resolve_eq_iff.1
    (show composite.resolve request = ⟨(composite.resolve request).fetched, .ok env⟩ by rw [← henv])
  have htour : Tours request composite.members asked (.ok env.sources) := by
    cases hresolves with
    | answered htour hfound => exact htour
  obtain ⟨keys, hkeys, rfl, hnames⟩ := htour.exists_keys composite.acceptEmpty
  have hrows : ((keys.flatMap fun k => k.2.lookups.map fun lookup => (k.1, lookup)).map
      fun a => CommandLine.lookupRow a.1 a.2) = CommandLine.lookupRows keys := by
    rw [List.map_flatMap, CommandLine.lookupRows]
    simp only [List.map_map]
    rfl
  refine ⟨_, keys, hresolves, hkeys, hasked, hrows, ?_⟩
  -- the last column of a row is the name that a source is reported under
  rw [← hrows, List.map_map]
  have hcolumn := hnames.map some
  rwa [List.map_map, List.map_map] at hcolumn

/-- A remote provider that fails for every profile, which is tolerated, and a local one that is required
to answer. -/
def fallbackComposite : Composite where
  members := [
    { order := 0
      aggregator := { provider := {
        name := "remote"
        fetch := fun lookup => if lookup.profile.isSome then .failed ["timeout"] else .absent
        failOnError := false } } },
    { order := 1
      aggregator := {
        provider := {
          name := "local"
          fetch := fun lookup =>
            if lookup.application = "cart" then .source (OrderedMap.ofList [("port", .null)])
            else .source OrderedMap.empty }
        acceptEmpty := false } }]
  acceptEmpty := false

/-- A request for two profiles of an application. -/
def cartRequest : Request := ⟨"cart", "dev,test", none⟩

theorem resolve_spec_fallbackComposite :
    ∃ env keys, (fallbackComposite.resolve cartRequest).outcome = .ok env ∧
      env.sources.map PropertySource.name = ["cart-test", "cart-dev", "cart"] ∧
        fallbackComposite.lookupKeys cartRequest = .ok keys ∧
          (CommandLine.lookupRows keys).length = 12 ∧
            (env.sources.map fun source => some source.name).Sublist
              ((CommandLine.lookupRows keys).map List.getLast?) := by
  obtain ⟨env, henv, hnames⟩ : ∃ env, (fallbackComposite.resolve cartRequest).outcome = .ok env ∧
      env.sources.map PropertySource.name = ["cart-test", "cart-dev", "cart"] := ⟨_, by rfl, by rfl⟩
  obtain ⟨asked, keys, -, hkeys, hasked, hrows, hsublist⟩ :=
    (resolve_spec fallbackComposite cartRequest).2 env henv
  have hlength : (CommandLine.lookupRows keys).length = 12 := by
    rw [← hrows, List.length_map, ← List.length_map Prod.snd, ← hasked]
    rfl
  exact ⟨env, keys, henv, hnames, hkeys, hlength, hsublist⟩

end Composite

end LayeredConfig
