import LayeredConfig.Proofs.Composite.Order
import LayeredConfig.Proofs.Composite.Sources
import LayeredConfig.Proofs.Merge.Precedence
import LayeredConfig.Table

/-!
# Precedence over tables

Resolving a request at tables that are available asks them one lookup after another.  What is found
under a key at the end can be told from the rows alone: the first lookup that has an answer decides, and
of its rows the one that was pushed last.

* `consultations` — the lookups of a request, in the order in which they take precedence.
* `Consultation.get?_select` — what one lookup gives for a key.
* `sources_resolve` — the sources of the environment are those of the lookups with an answer.
* `get?_resolve` — what the environment gives for a key.
-/

namespace LayeredConfig

open Entries

/-- One lookup at one table. -/
structure Consultation where
  table : Table
  lookup : Lookup

namespace Consultation

variable {c : Consultation} {k name : String}

/-- The rows that answer the lookup, in the order in which they were pushed. -/
def rows (c : Consultation) : List Row := c.table.rows.filter (·.answers c.lookup)

/-- The value of the last row with a key. -/
def value? (c : Consultation) (key : String) : Option Value :=
  (c.rows.filter (·.key = key)).getLast?.map Row.value

/-- Whether a row has a key of a family. -/
def HasFamily (c : Consultation) (name : String) : Prop :=
  ∃ row ∈ c.rows, familyPrefix? row.key = some name

instance (c : Consultation) (name : String) : Decidable (c.HasFamily name) :=
  inferInstanceAs (Decidable (∃ row ∈ c.rows, familyPrefix? row.key = some name))

/-- The properties of the rows that answer, unless there are none. -/
def source? (c : Consultation) : Option Properties :=
  if (c.table.select c.lookup).isEmpty then none else some (c.table.select c.lookup)

theorem get?_map_rows (rows : List Row) (k : String) :
    get? k (rows.map fun row => (row.key, row.value)) =
      (rows.find? fun row => row.key = k).map Row.value := by
  induction rows with
  | nil => rfl
  | cons row rows ih =>
      rw [List.map_cons, get?, ih]
      by_cases h : row.key = k <;> simp [h]

/-- The last row with a key gives its value. -/
theorem get?_select (c : Consultation) (k : String) :
    (c.table.select c.lookup).get? k = c.value? k := by
  rw [Table.select, OrderedMap.get?_ofList, ← List.map_reverse, get?_map_rows, value?,
    List.getLast?_filter]
  rfl

theorem hasFamily_select : LayeredConfig.HasFamily (c.table.select c.lookup) name ↔ c.HasFamily name := by
  rw [LayeredConfig.HasFamily, Table.select]
  simp only [OrderedMap.mem_keys_ofList, keys, List.map_map, List.mem_map]
  constructor
  · rintro ⟨_, ⟨row, hrow, rfl⟩, hname⟩
    exact ⟨row, hrow, hname⟩
  · rintro ⟨row, hrow, hname⟩
    exact ⟨row.key, ⟨row, hrow, rfl⟩, hname⟩

theorem source?_eq_some {source : Properties} (h : c.source? = some source) :
    source = c.table.select c.lookup := by
  rw [source?] at h
  split_ifs at h
  exact (Option.some.inj h).symm

/-- Nothing is found where no row answers. -/
theorem get?_of_source?_eq_none (h : c.source? = none) (k : String) :
    (c.table.select c.lookup).get? k = none := by
  rw [source?] at h
  split_ifs at h with hempty
  rw [OrderedMap.isEmpty, List.isEmpty_iff] at hempty
  rw [OrderedMap.get?, hempty, get?]

/-- The first lookup with a value for a key. -/
theorem findSome?_sources (consultations : List Consultation) (k : String) :
    (consultations.filterMap source?).findSome? (·.get? k) =
      consultations.findSome? (·.value? k) := by
  induction consultations with
  | nil => rfl
  | cons c rest ih =>
      cases hc : c.source? with
      | none =>
          have hnone := get?_of_source?_eq_none hc k
          rw [get?_select] at hnone
          rw [List.filterMap_cons_none hc, ih, List.findSome?_cons, hnone]
      | some source =>
          obtain rfl := source?_eq_some hc
          rw [List.filterMap_cons_some hc, List.findSome?_cons, List.findSome?_cons, get?_select, ih]

/-- The first lookup with a key of a family. -/
theorem find?_sources (consultations : List Consultation) (name k : String) :
    ((consultations.filterMap source?).find? fun source => LayeredConfig.HasFamily source name).bind
        (·.get? k) =
      (consultations.find? fun c => c.HasFamily name).bind (·.value? k) := by
  induction consultations with
  | nil => rfl
  | cons c rest ih =>
      cases hc : c.source? with
      | none =>
          have hnot : ¬ c.HasFamily name := by
            rw [← hasFamily_select]
            rintro ⟨k', hk', -⟩
            obtain ⟨v, hv⟩ := OrderedMap.mem_keys_iff.1 hk'
            rw [get?_of_source?_eq_none hc] at hv
            contradiction
          rw [List.filterMap_cons_none hc, ih, List.find?_cons_of_neg (by simpa using hnot)]
      | some source =>
          obtain rfl := source?_eq_some hc
          rw [List.filterMap_cons_some hc]
          by_cases h : c.HasFamily name
          · rw [List.find?_cons_of_pos (by simpa [hasFamily_select] using h),
              List.find?_cons_of_pos (by simpa using h), Option.bind_some, Option.bind_some,
              get?_select]
          · rw [List.find?_cons_of_neg (by simpa [hasFamily_select] using h),
              List.find?_cons_of_neg (by simpa using h), ih]

end Consultation

/-! ## The lookups of a request -/

/-- A table as it is added to a composite. -/
structure TableMember where
  order : Int
  table : Table
  /-- Whether a request may find nothing in the table. -/
  acceptEmpty : Bool := true

/-- The member of a composite that a table makes. -/
def TableMember.toMember (m : TableMember) : Member := ⟨m.order, ⟨m.table.toProvider, m.acceptEmpty⟩⟩

/-- The composite to which tables have been added one after another. -/
def Composite.ofTables (added : List TableMember) (acceptEmpty : Bool) : Composite :=
  (added.map TableMember.toMember).foldl Composite.add { acceptEmpty }

/-- The lookups for some candidates: label by label, in each label first those with a profile, profile by
profile, then those without; applications innermost. -/
def LookupKeys.inTurn (keys : LookupKeys) : List Lookup :=
  keys.labels.flatMap fun label =>
    (keys.profiles.flatMap fun profile =>
        keys.applications.map fun application => ⟨label, some profile, application⟩) ++
      if keys.profilelessFallback then
        keys.applications.map fun application => ⟨label, none, application⟩
      else []

theorem LookupKeys.lookups_eq_inTurn (keys : LookupKeys) : keys.lookups = keys.inTurn := by
  refine List.flatMap_congr fun label _ => ?_
  rw [profileChoices, List.flatMap_append, List.flatMap_map]
  congr 1
  split <;> simp

/-- The lookups of a request at one table. -/
def TableMember.consultations (request : Request) (m : TableMember) : List Consultation :=
  match m.table.toProvider.expander.keysOf request with
  | .ok keys => keys.inTurn.map (⟨m.table, ·⟩)
  | .error _ => []

/-- The lookups of a request at some tables: tables of a lower order first, those of one order as they
were added. -/
def consultations (added : List TableMember) (request : Request) : List Consultation :=
  (added.mergeSort fun a b => a.order ≤ b.order).flatMap (·.consultations request)

/-! ## The sources that are found -/

variable {added : List TableMember} {request : Request} {env : Environment}

/-- A table that is available answers every lookup. -/
theorem collect_toProvider {table : Table} (h : table.available = true) (lookups : List Lookup) :
    ∃ sources, (table.toProvider.collect lookups).outcome = .ok sources ∧
      sources.map PropertySource.source =
        lookups.filterMap fun lookup => (⟨table, lookup⟩ : Consultation).source? := by
  induction lookups with
  | nil => exact ⟨[], rfl, rfl⟩
  | cons lookup lookups ih =>
      obtain ⟨sources, hsources, hmap⟩ := ih
      have hfetch : table.toProvider.fetch lookup =
          if (table.select lookup).isEmpty then .absent else .source (table.select lookup) := by
        simp [Table.toProvider, Table.fetch, h]
      rw [Provider.collect, hfetch]
      by_cases hempty : (table.select lookup).isEmpty = true
      · refine ⟨sources, by simpa [hempty] using hsources, ?_⟩
        simp [Consultation.source?, hempty, hmap]
      · refine ⟨⟨lookup.sourceName, table.select lookup⟩ :: sources, ?_, ?_⟩
        · simp [hempty, hsources, Except.map]
        · simp [Consultation.source?, hempty, hmap]

/-- The sources of one table. -/
theorem collect_toMember {m : TableMember} {sources : List PropertySource}
    (h : m.table.available = true)
    (hsources : (m.toMember.aggregator.collect request).outcome = .ok sources) :
    sources.map PropertySource.source =
      (m.consultations request).filterMap Consultation.source? := by
  obtain ⟨keys, hkeys, hfound, -⟩ := Aggregator.collect_eq_ok_iff.1 hsources
  obtain ⟨found, hfound', hmap⟩ := collect_toProvider h keys.lookups
  obtain rfl := Except.ok.inj (hfound.symm.trans hfound')
  have hkeys' : m.table.toProvider.expander.keysOf request = .ok keys := hkeys
  rw [hmap, TableMember.consultations, hkeys', List.filterMap_map, LookupKeys.lookups_eq_inTurn]
  rfl

/-- The sources of tables asked one after another. -/
theorem collect_toMembers {members : List TableMember} {sources : List PropertySource}
    (havailable : ∀ m ∈ members, m.table.available = true)
    (hsources : (Composite.collect request (members.map TableMember.toMember)).outcome = .ok sources) :
    sources.map PropertySource.source =
      (members.flatMap (·.consultations request)).filterMap Consultation.source? := by
  obtain ⟨parts, hparts, rfl⟩ := Composite.collect_eq_ok_iff.1 hsources
  rw [List.map_map] at hparts
  clear hsources
  induction members generalizing parts with
  | nil =>
      obtain rfl : parts = [] := by simpa using hparts.symm
      rfl
  | cons m members ih =>
      cases parts with
      | nil => simp at hparts
      | cons part parts =>
          obtain ⟨hpart, hrest⟩ := List.cons.inj hparts
          rw [List.flatten_cons, List.map_append,
            collect_toMember (havailable m List.mem_cons_self) hpart,
            ih (fun m' hm' => havailable m' (List.mem_cons_of_mem m hm')) parts hrest,
            List.flatMap_cons, List.filterMap_append]

/-- The sources of the environment are those of the lookups with an answer. -/
theorem sources_resolve (havailable : ∀ m ∈ added, m.table.available = true) {acceptEmpty : Bool}
    (henv : ((Composite.ofTables added acceptEmpty).resolve request).outcome = .ok env) :
    env.sources.map PropertySource.source =
      (consultations added request).filterMap Consultation.source? := by
  have hmembers : (Composite.ofTables added acceptEmpty).members =
      (added.mergeSort fun a b => a.order ≤ b.order).map TableMember.toMember := by
    rw [Composite.ofTables, Composite.members_foldl_add]
    exact (List.map_mergeSort (f := TableMember.toMember) fun _ _ _ _ => rfl).symm
  obtain ⟨sources, hsources, -, rfl⟩ := Composite.resolve_eq_ok_iff.1 henv
  rw [hmembers] at hsources
  exact collect_toMembers
    (fun m hm => havailable m ((List.mergeSort_perm _ _).mem_iff.1 hm)) hsources

/-- Precedence over tables that are available.  A plain key has the value of the first lookup that has a
row with it, and a key with an index that of the first lookup that has a row with any key of its family;
of several rows the one that was pushed last counts. -/
theorem get?_resolve (havailable : ∀ m ∈ added, m.table.available = true) {acceptEmpty : Bool}
    (henv : ((Composite.ofTables added acceptEmpty).resolve request).outcome = .ok env) {k : String}
    (hk : k ≠ activeProfilesKey) :
    (familyPrefix? k = none →
        env.merged.get? k = (consultations added request).findSome? (·.value? k)) ∧
      ∀ name, familyPrefix? k = some name →
        env.merged.get? k =
          ((consultations added request).find? fun c => c.HasFamily name).bind (·.value? k) := by
  rw [Environment.merged, sources_resolve havailable henv]
  constructor
  · intro hplain
    rw [get?_merge_of_plain hplain, if_neg hk, Consultation.findSome?_sources]
  · intro name hname
    rw [get?_merge_of_family hname, Consultation.find?_sources]

/-- A table of one application's properties and one of properties for all applications, which is
consulted later although it was added first. -/
def siteTables : List TableMember := [
  { order := 1
    table := {
      name := "shared"
      rows := [⟨"application", none, "master", "name", .string "site"⟩,
        ⟨"application", none, "master", "hosts[0]", .string "a"⟩,
        ⟨"application", none, "master", "hosts[1]", .string "b"⟩] } },
  { order := 0
    table := {
      name := "own"
      rows := [⟨"shop", some "test", "master", "hosts[0]", .string "c"⟩,
        ⟨"shop", none, "master", "name", .string "shop"⟩,
        ⟨"shop", none, "master", "name", .string "store"⟩] } }]

/-- A request for the test profile of an application. -/
def shopRequest : Request := ⟨"shop", "test", none⟩

theorem get?_resolve_siteTables :
    ∃ env, ((Composite.ofTables siteTables true).resolve shopRequest).outcome = .ok env ∧
      env.merged.get? "name" = some (.string "store") ∧
        env.merged.get? "hosts[0]" = some (.string "c") ∧
          env.merged.get? "hosts[1]" = none := by
  obtain ⟨env, henv⟩ : ∃ env,
      ((Composite.ofTables siteTables true).resolve shopRequest).outcome = .ok env := ⟨_, by rfl⟩
  have havailable : ∀ m ∈ siteTables, m.table.available = true := by decide
  have hsorted : (siteTables.mergeSort fun a b => a.order ≤ b.order) = siteTables.reverse := by
    simp [siteTables, List.mergeSort, List.MergeSort.Internal.splitInTwo]
  have hconsultations : consultations siteTables shopRequest =
      siteTables.reverse.flatMap (·.consultations shopRequest) := by rw [consultations, hsorted]
  refine ⟨env, henv, ?_, ?_, ?_⟩
  · rw [(get?_resolve havailable henv (by decide)).1 (by decide), hconsultations]
    rfl
  · rw [(get?_resolve havailable henv (by decide)).2 "hosts" (by decide), hconsultations]
    rfl
  · rw [(get?_resolve havailable henv (by decide)).2 "hosts" (by decide), hconsultations]
    rfl
end LayeredConfig
