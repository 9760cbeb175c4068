import LayeredConfig.Composite
import LayeredConfig.Proofs.Key.Spelling

/-!
# Where the sources of an environment come from

A composite succeeds where each of its members does, and its sources are those of the members one behind
the other.

* `Composite.collect_eq_ok_iff` — the sources found in members.
* `Aggregator.collect_eq_ok_iff` — the sources found by one of them.
* `Composite.resolve_eq_ok_iff` — the environment of a request.
-/

namespace LayeredConfig

variable {request : Request} {sources : List PropertySource} {env : Environment}

/-- An attempt that refuses to find nothing. -/
theorem nonempty_eq_ok_iff {α : Type} {outcome : Except Failure (List PropertySource)}
    {acceptEmpty : Bool} {failure : Failure} {f : List PropertySource → α} {a : α} :
    (do
        let sources ← outcome
        if !acceptEmpty && sources.isEmpty then .error failure else .ok (f sources)) = .ok a ↔
      ∃ sources, outcome = .ok sources ∧ (acceptEmpty = true ∨ sources ≠ []) ∧ a = f sources := by
  cases outcome with
  | error failure => simp [bind, Except.bind]
  | ok sources =>
      by_cases hempty : acceptEmpty = true ∨ sources ≠ []
      · have hcond : (!acceptEmpty && sources.isEmpty) = false := by
          rcases hempty with h | h <;> simp [h]
        simpa [bind, Except.bind, hcond, hempty] using eq_comm
      · have hcond : (!acceptEmpty && sources.isEmpty) = true := by
          simpa [not_or] using hempty
        simp [bind, Except.bind, hcond, hempty]

namespace Composite

/-- Members that all succeed give their sources one behind the other. -/
theorem collect_eq_ok_iff {members : List Member} :
    (collect request members).outcome = .ok sources ↔
      ∃ parts : List (List PropertySource),
        members.map (fun member => (member.aggregator.collect request).outcome) =
          parts.map Except.ok ∧ sources = parts.flatten := by
  induction members generalizing sources with
  | nil =>
      constructor
      · intro h
        exact ⟨[], rfl, (Except.ok.inj h).symm⟩
      · rintro ⟨parts, hparts, rfl⟩
        obtain rfl : parts = [] := by simpa using hparts.symm
        rfl
  | cons member members ih =>
      rw [collect]
      cases hfirst : (member.aggregator.collect request).outcome with
      | error failure =>
          refine iff_of_false (by simp) ?_
          rintro ⟨parts, hparts, -⟩
          cases parts with
          | nil => simp at hparts
          | cons part parts => simp [hfirst] at hparts
      | ok part =>
          simp only [map_eq_ok, ih]
          constructor
          · rintro ⟨_, ⟨parts, hparts, rfl⟩, rfl⟩
            exact ⟨part :: parts, by rw [List.map_cons, List.map_cons, hfirst, hparts], rfl⟩
          · rintro ⟨parts, hparts, rfl⟩
            cases parts with
            | nil => simp at hparts
            | cons part' parts =>
                rw [List.map_cons, List.map_cons, hfirst] at hparts
                obtain ⟨hpart, hrest⟩ := List.cons.inj hparts
                obtain rfl := Except.ok.inj hpart
                exact ⟨_, ⟨parts, hrest, rfl⟩, rfl⟩

theorem resolve_eq_ok_iff {composite : Composite} :
    (composite.resolve request).outcome = .ok env ↔
      ∃ sources, (collect request composite.members).outcome = .ok sources ∧
        (composite.acceptEmpty = true ∨ sources ≠ []) ∧
          env = { Environment.ofRequest request with sources } :=
  nonempty_eq_ok_iff

end Composite

namespace Aggregator

variable {aggregator : Aggregator}

/-- The sources of an aggregator are those its provider has for the lookups of the request. -/
theorem collect_eq_ok_iff :
    (aggregator.collect request).outcome = .ok sources ↔
      ∃ keys, aggregator.provider.expander.keysOf request = .ok keys ∧
        (aggregator.provider.collect keys.lookups).outcome = .ok sources ∧
          (aggregator.acceptEmpty = true ∨ sources ≠ []) := by
  rw [collect, lookupKeys]
  cases hkeys : aggregator.provider.expander.keysOf request with
  | error problem => simp [Except.mapError]
  | ok keys =>
      constructor
      · intro h
        obtain ⟨found, hfound, hempty, rfl⟩ := nonempty_eq_ok_iff.1 h
        exact ⟨keys, rfl, hfound, hempty⟩
      · rintro ⟨keys', hkeys', hfound, hempty⟩
        obtain rfl := Except.ok.inj hkeys'
        exact nonempty_eq_ok_iff.2 ⟨sources, hfound, hempty, rfl⟩

end Aggregator

end LayeredConfig
