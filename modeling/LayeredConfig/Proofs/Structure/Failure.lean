import LayeredConfig.Proofs.Structure.Guards

/-!
# Why building fails

A document cannot be built for one of two reasons: a key is not in the grammar, or it shares an index with
an earlier key and the two part ways there.

* `PartWays` — how two keys go on behind what they share.
* `exists_part_ways` — a readable key that cannot be inserted parts ways with an earlier one.
* `build_failure_justified` — every failure has one of the two reasons, and no check fails on the way.
-/

namespace LayeredConfig.Structure

open Key (Segment SpellsKey lead)

/-- Two keys part ways behind what they share: one ends and the other does not, or one goes on with a name
and the other with an index. -/
inductive PartWays : List Segment → List Segment → Prop
  | ends (g : Segment) (r : List Segment) : PartWays [] (g :: r)
  | nameIndex (k : String) (r : List Segment) (i : Nat) (r' : List Segment) :
      PartWays (.name k :: r) (.index i :: r')
  | symm {r r' : List Segment} (h : PartWays r r') : PartWays r' r

/-- Keys part ways exactly where different characters follow what they share. -/
theorem partWays_iff {r r' : List Segment} : PartWays r r' ↔ lead r ≠ lead r' := by
  constructor
  · intro h
    induction h with
    | ends g r => simp
    | nameIndex k r i r' => simp [Segment.opener]
    | symm h ih => exact ih.symm
  · intro h
    cases r with
    | nil =>
        cases r' with
        | nil => exact absurd rfl h
        | cons g r' => exact .ends g r'
    | cons g r =>
        cases r' with
        | nil => exact .symm (.ends g r)
        | cons g' r' =>
            cases g with
            | name k =>
                cases g' with
                | name k' => exact absurd rfl h
                | index i => exact .nameIndex k r i r'
            | index i =>
                cases g' with
                | name k => exact .symm (.nameIndex k r' i r)
                | index j => exact absurd rfl h

/-- One of the properties shares an index with a key, and the two part ways behind it. -/
def SharesIndex (entries : List (String × Value)) (key : String) : Prop :=
  ∃ e ∈ entries, ∃ p i r r', Key.segments? key = some (p ++ .index i :: r) ∧
    Key.segments? e.1 = some (p ++ .index i :: r') ∧ PartWays r r'

variable {before : List (String × Value)} {e : String × Value} {m : NodeMap} {problem : Key.Problem}

/-- A readable key that cannot be inserted behind others parts ways with one of them. -/
theorem exists_part_ways {segments : List Segment} (hbefore : insertAll [] before = .ok m)
    (hsegments : Key.segments? e.1 = some segments) (h : insertEntry m e = .error problem) :
    SharesIndex before e.1 := by
  obtain ⟨p, i, r, r', -, rfl, hkeyed, hlead, -⟩ :=
    exists_clash_of_insertEntry_eq_error hbefore hsegments h
  obtain ⟨e', he', hsegments'⟩ := mem_keySegments.1 hkeyed
  exact ⟨e', he', p, i, r, r', hsegments, hsegments', partWays_iff.2 hlead.symm⟩

/-- Every failure is justified.  Either a document is built, or the key of some property is reported which
is not in the grammar or parts ways with the key of an earlier property behind a shared index.  The checks
of a guarded run add nothing to this: none of them ever fails. -/
theorem build_failure_justified (strip : Bool) (flat : Properties) :
    ((∃ root, buildRoot strip flat = .ok root) ∨
      ∃ before e after problem, flat.entries = before ++ e :: after ∧
        buildRoot strip flat = .error ⟨e.1, problem⟩ ∧
          ((¬ ∃ segments, SpellsKey segments e.1.toList) ∨ SharesIndex before e.1)) ∧
    Guarded.build flat = (build flat).mapError Guarded.reported := by
  refine ⟨?_, Guarded.build_eq flat⟩
  cases hbuild : build flat with
  | ok m =>
      left
      exact ⟨_, by rw [buildRoot, hbuild, Except.map]⟩
  | error x =>
      right
      obtain ⟨before, e, after, m, problem, hentries, hbefore, hfail, rfl⟩ :=
        exists_of_insertAll_eq_error hbuild
      refine ⟨before, e, after, problem, hentries, by rw [buildRoot, hbuild, Except.map], ?_⟩
      by_cases hread : ∃ segments, SpellsKey segments e.1.toList
      · right
        obtain ⟨segments, hspells⟩ := hread
        have hsegments := Key.segments?_eq_some_iff.2 (Key.spellsKey_iff.1 hspells)
        exact exists_part_ways hbefore hsegments hfail
      · exact .inl hread

end LayeredConfig.Structure
