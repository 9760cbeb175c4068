import LayeredConfig.Proofs.Composite.Sources
import LayeredConfig.Proofs.Merge.Layers
import LayeredConfig.Table

/-!
# Merging group by group

Merging moves families behind the plain keys and leaves the active profiles out.  None of this is seen
by a second merge: the layers of merged groups are those of all their sources, up to the active profiles.
-/

namespace LayeredConfig

/-- Merged groups have the layers of all their sources, but for the active profiles. -/
theorem Merge.layers_map_merge (groups : List (List Properties)) :
    (layers (groups.map merge)).visible = (layers groups.flatten).visible ∧
      (layers (groups.map merge)).families = (layers groups.flatten).families := by
  induction groups with
  | nil => exact ⟨rfl, rfl⟩
  | cons group groups ih =>
      -- what is read off the merged group is what its own layers show
      rw [List.map_cons, layers_cons, Layers.add, plainEntries_merge, families_merge,
        List.flatten_cons, layers_append]
      refine ⟨?_, by rw [ih.2]⟩
      have hfilter := @Entries.filter_putAll Value fun k => decide (k ≠ activeProfilesKey)
      have hvisible := ih.1
      simp only [Layers.visible] at hvisible ⊢
      rw [hfilter, hfilter, hvisible, List.filter_filter]
      simp only [Bool.and_self]

/-- Sources may be merged group by group before the groups are merged; the result is the same, order
included.  So a merged map is left as it is, and the merged view of a composite is that of the merged
views of its members. -/
theorem merge_grouped :
    (∀ groups : List (List Properties), merge (groups.map merge) = merge groups.flatten) ∧
      (∀ sources : List Properties, merge [merge sources] = merge sources) ∧
        ∀ (composite : Composite) (request : Request) (env : Environment),
          (composite.resolve request).outcome = .ok env →
            ∃ envs : List Environment,
              composite.members.map (fun member => (member.aggregator.resolve request).outcome) =
                  envs.map Except.ok ∧
                env.merged = merge (envs.map Environment.merged) := by
  have hgroups : ∀ groups : List (List Properties),
      merge (groups.map merge) = merge groups.flatten := by
    intro groups
    obtain ⟨hvisible, hfamilies⟩ := Merge.layers_map_merge groups
    apply OrderedMap.ext_entries
    rw [Merge.entries_merge, Merge.entries_merge, hvisible, hfamilies]
  refine ⟨hgroups, fun sources => by simpa using hgroups [sources], ?_⟩
  intro composite request env henv
  obtain ⟨sources, hsources, -, rfl⟩ := Composite.resolve_eq_ok_iff.1 henv
  obtain ⟨parts, hparts, rfl⟩ := Composite.collect_eq_ok_iff.1 hsources
  refine ⟨parts.map fun sources => { Environment.ofRequest request with sources }, ?_, ?_⟩
  · -- every member has its own part of the sources
    have hmember : (fun member : Member => (member.aggregator.resolve request).outcome) =
        Except.map (fun sources => { Environment.ofRequest request with sources }) ∘
          fun member => (member.aggregator.collect request).outcome := rfl
    rw [hmember, ← List.map_map, hparts, List.map_map, List.map_map]
    rfl
  · have hmerged := hgroups (parts.map (List.map PropertySource.source))
    rw [← List.map_flatten, List.map_map] at hmerged
    rw [List.map_map]
    exact hmerged.symm

/-- Two tables that share a family. -/
def regionTables : Composite := {
  members := [
    ⟨0, { provider := Table.toProvider {
        name := "north"
        rows := [⟨"shop", none, "master", "hosts[0]", .string "a"⟩,
          ⟨"shop", none, "master", "name", .string "b"⟩] } }⟩,
    ⟨1, { provider := Table.toProvider {
        name := "south"
        rows := [⟨"shop", none, "master", "hosts[0]", .string "c"⟩,
          ⟨"shop", none, "master", "hosts[1]", .string "d"⟩] } }⟩] }

theorem merge_grouped_regionTables :
    ∃ env, (regionTables.resolve ⟨"shop", "", none⟩).outcome = .ok env ∧
      env.merged.entries = [("name", .string "b"), ("hosts[0]", .string "a")] ∧
      ∃ envs : List Environment,
        regionTables.members.map
            (fun member => (member.aggregator.resolve ⟨"shop", "", none⟩).outcome) =
          envs.map Except.ok ∧
        env.merged = merge (envs.map Environment.merged) := by
  obtain ⟨env, henv, hmerged⟩ : ∃ env, (regionTables.resolve ⟨"shop", "", none⟩).outcome = .ok env ∧
      env.merged.entries = [("name", .string "b"), ("hosts[0]", .string "a")] :=
    ⟨_, by rfl, by decide⟩
  exact ⟨env, henv, hmerged, merge_grouped.2.2 regionTables ⟨"shop", "", none⟩ env henv⟩

end LayeredConfig
