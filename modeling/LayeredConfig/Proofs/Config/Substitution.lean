import LayeredConfig.Proofs.Config.References
import LayeredConfig.Proofs.Json.Leaves
import LayeredConfig.Proofs.Words
import Mathlib

/-!
# Configurations with their references replaced

A configuration is gone through twice, once for the names of the variables it refers to and once to replace
the references.  Both ways read the same references, so that the names tell which environments will do, and
which of their variables matter.

* `strings` — the strings of a configuration with their paths, in the order of the document.
* `FirstMissing` — the first reference to a variable that is not provided.
* `value_eq` — what becomes of a value, in one step for all its strings.
* `mem_referencedNames_iff` — the names are those that some string refers to.
* `substitute_spec` — when a configuration can be substituted, and what comes of it.
-/

namespace LayeredConfig.Substitution

open Value (mapStrings mapItems mapMembers Rewritten RewrittenItems RewrittenMembers)

variable {vars : Variables} {missing : MissingVariable} {v : Value} {f g : List Char → List Char}

mutual

/-- The strings of the value at `path`, each with a path of its own, in the order of the document. -/
def strings (path : String) : Value → List (String × List Char)
  | .null => []
  | .bool _ => []
  | .number _ => []
  | .string s => [(path, s.toList)]
  | .array items => itemStrings path 0 items
  | .object members => memberStrings path members

/-- The strings in the items of the array at `path` from the `i`-th on. -/
def itemStrings (path : String) (i : Nat) : List Value → List (String × List Char)
  | [] => []
  | v :: rest => strings (itemPath path i) v ++ itemStrings path (i + 1) rest

/-- The strings in members of the object at `path`. -/
def memberStrings (path : String) : List (String × Value) → List (String × List Char)
  | [] => []
  | (k, v) :: rest => strings (memberPath path k) v ++ memberStrings path rest

end

/-- The first reference, in the order of the document, whose variable is not provided, with the path of the
string which holds it. -/
def FirstMissing (vars : Variables) (v : Value) (missing : MissingVariable) : Prop :=
  ∃ earlier before after later,
    strings "" v = earlier ++ (missing.path, before ++ '$' :: (braced missing.name.toList ++ after)) :: later ∧
      IsVariable missing.name.toList ∧ before.getLast? ≠ some '$' ∧ ¬ Provided vars missing.name ∧
      (∀ place ∈ earlier, ∀ name, Refers place.2 name → Provided vars name) ∧
      ∀ name, Refers before name → Provided vars name

/-- What is missing for the string at a place. -/
def missingAt? (vars : Variables) (place : String × List Char) : Option MissingVariable :=
  (firstMissing? vars place.2).map fun name => ⟨name, place.1⟩

/-- A result, unless a variable is missing. -/
def outcome {α : Type} (missing : Option MissingVariable) (a : α) : Except MissingVariable α :=
  match missing with
  | some missing => .error missing
  | none => .ok a

/-! ## Both ways through a configuration -/

mutual

/-- The first variable that is missing ends the substitution, and without one every string is replaced. -/
theorem value_eq (vars : Variables) : ∀ (path : String) (v : Value),
    value vars path v = outcome ((strings path v).findSome? (missingAt? vars)) (v.mapStrings (filled vars))
  | path, .null | path, .bool _ | path, .number _ => by
    rw [value, strings, mapStrings, List.findSome?_nil, outcome] <;> simp
  | path, .string s => by
    rw [value, strings, mapStrings, text_eq, List.findSome?_singleton, missingAt?]
    cases firstMissing? vars s.toList <;> rfl
  | path, .array items => by
    rw [value, strings, mapStrings, substitutedItems_eq vars path 0 items]
    cases (itemStrings path 0 items).findSome? (missingAt? vars) <;> rfl
  | path, .object members => by
    rw [value, strings, mapStrings, substitutedMembers_eq vars path members]
    cases (memberStrings path members).findSome? (missingAt? vars) <;> rfl

theorem substitutedItems_eq (vars : Variables) (path : String) : ∀ (i : Nat) (items : List Value),
    substitutedItems vars path i items =
      outcome ((itemStrings path i items).findSome? (missingAt? vars)) (mapItems (filled vars) items)
  | i, [] => by rw [substitutedItems, itemStrings, mapItems, List.findSome?_nil, outcome]
  | i, v :: rest => by
    rw [substitutedItems, itemStrings, mapItems, List.findSome?_append, value_eq vars (itemPath path i) v,
      substitutedItems_eq vars path (i + 1) rest]
    cases (strings (itemPath path i) v).findSome? (missingAt? vars) with
    | some missing => rfl
    | none => cases (itemStrings path (i + 1) rest).findSome? (missingAt? vars) <;> rfl

theorem substitutedMembers_eq (vars : Variables) (path : String) : ∀ members : List (String × Value),
    substitutedMembers vars path members =
      outcome ((memberStrings path members).findSome? (missingAt? vars)) (mapMembers (filled vars) members)
  | [] => by rw [substitutedMembers, memberStrings, mapMembers, List.findSome?_nil, outcome]
  | (k, v) :: rest => by
    rw [substitutedMembers, memberStrings, mapMembers, List.findSome?_append,
      value_eq vars (memberPath path k) v, substitutedMembers_eq vars path rest]
    cases (strings (memberPath path k) v).findSome? (missingAt? vars) with
    | some missing => rfl
    | none => cases (memberStrings path rest).findSome? (missingAt? vars) <;> rfl

end

mutual

/-- The names of a configuration are collected from the same strings. -/
theorem valueNames_eq : ∀ (path : String) (v : Value),
    valueNames v = (strings path v).flatMap fun place => neededNames place.2
  | path, .null | path, .bool _ | path, .number _ => by rw [valueNames, strings, List.flatMap_nil] <;> simp
  | path, .string s => by rw [valueNames, strings, List.flatMap_singleton]
  | path, .array items => by rw [valueNames, strings, itemNames_eq path 0 items]
  | path, .object members => by rw [valueNames, strings, memberNames_eq path members]

theorem itemNames_eq (path : String) : ∀ (i : Nat) (items : List Value),
    itemNames items = (itemStrings path i items).flatMap fun place => neededNames place.2
  | i, [] => by rw [itemNames, itemStrings, List.flatMap_nil]
  | i, v :: rest => by
    rw [itemNames, itemStrings, List.flatMap_append, valueNames_eq (itemPath path i) v,
      itemNames_eq path (i + 1) rest]

theorem memberNames_eq (path : String) : ∀ members : List (String × Value),
    memberNames members = (memberStrings path members).flatMap fun place => neededNames place.2
  | [] => by rw [memberNames, memberStrings, List.flatMap_nil]
  | (k, v) :: rest => by
    rw [memberNames, memberStrings, List.flatMap_append, valueNames_eq (memberPath path k) v,
      memberNames_eq path rest]

end

/-- The names of a configuration are those that one of its strings refers to. -/
theorem mem_referencedNames_iff {name : String} :
    name ∈ referencedNames v ↔ ∃ place ∈ strings "" v, Refers place.2 name := by
  rw [referencedNames, sortedWords, mem_firstOccurrences, List.mem_mergeSort, valueNames_eq "" v,
    List.mem_flatMap]
  exact exists_congr fun place => and_congr_right fun _ => mem_neededNames_iff

mutual

theorem strings_mapStrings : ∀ (path : String) (v : Value),
    strings path (v.mapStrings f) = (strings path v).map fun place => (place.1, f place.2)
  | path, .null | path, .bool _ | path, .number _ => by
    rw [mapStrings, strings, List.map_nil]
  | path, .string s => by rw [mapStrings, strings, strings, List.map_singleton, String.toList_ofList]
  | path, .array items => by rw [mapStrings, strings, strings, itemStrings_mapItems path 0 items]
  | path, .object members => by rw [mapStrings, strings, strings, memberStrings_mapMembers path members]

theorem itemStrings_mapItems (path : String) : ∀ (i : Nat) (items : List Value),
    itemStrings path i (mapItems f items) =
      (itemStrings path i items).map fun place => (place.1, f place.2)
  | i, [] => by rw [mapItems, itemStrings, List.map_nil]
  | i, v :: rest => by
    rw [mapItems, itemStrings, itemStrings, List.map_append, strings_mapStrings (itemPath path i) v,
      itemStrings_mapItems path (i + 1) rest]

theorem memberStrings_mapMembers (path : String) : ∀ members : List (String × Value),
    memberStrings path (mapMembers f members) =
      (memberStrings path members).map fun place => (place.1, f place.2)
  | [] => by rw [mapMembers, memberStrings, List.map_nil]
  | (k, v) :: rest => by
    rw [mapMembers, memberStrings, memberStrings, List.map_append, strings_mapStrings (memberPath path k) v,
      memberStrings_mapMembers path rest]

end

/-! ## What comes of a substitution -/

mutual

/-- A function that replaces every string of a value by a related one keeps everything else. -/
theorem rewritten_mapStrings {R : List Char → List Char → Prop} : ∀ (path : String) (v : Value),
    (∀ place ∈ strings path v, R place.2 (f place.2)) → Rewritten R v (v.mapStrings f)
  | path, .null, _ | path, .bool _, _ | path, .number _, _ => by simp [mapStrings, Rewritten]
  | path, .string s, h => by
    rw [mapStrings, Rewritten, String.toList_ofList]
    exact h (path, s.toList) (by simp [strings])
  | path, .array items, h => by
    rw [mapStrings, Rewritten]
    rw [strings] at h
    exact rewrittenItems_mapItems path 0 items h
  | path, .object members, h => by
    rw [mapStrings, Rewritten]
    rw [strings] at h
    exact rewrittenMembers_mapMembers path members h

theorem rewrittenItems_mapItems {R : List Char → List Char → Prop} (path : String) :
    ∀ (i : Nat) (items : List Value), (∀ place ∈ itemStrings path i items, R place.2 (f place.2)) →
      RewrittenItems R items (mapItems f items)
  | i, [], _ => by simp [mapItems, RewrittenItems]
  | i, v :: rest, h => by
    rw [itemStrings, List.forall_mem_append] at h
    rw [mapItems, RewrittenItems]
    exact ⟨rewritten_mapStrings (itemPath path i) v h.1, rewrittenItems_mapItems path (i + 1) rest h.2⟩

theorem rewrittenMembers_mapMembers {R : List Char → List Char → Prop} (path : String) :
    ∀ members : List (String × Value), (∀ place ∈ memberStrings path members, R place.2 (f place.2)) →
      RewrittenMembers R members (mapMembers f members)
  | [], _ => by simp [mapMembers, RewrittenMembers]
  | (k, v) :: rest, h => by
    rw [memberStrings, List.forall_mem_append] at h
    rw [mapMembers, RewrittenMembers]
    exact ⟨rfl, rewritten_mapStrings (memberPath path k) v h.1, rewrittenMembers_mapMembers path rest h.2⟩

end

mutual

/-- Only what a function does to the strings of a value matters. -/
theorem mapStrings_congr : ∀ (path : String) (v : Value),
    (∀ place ∈ strings path v, f place.2 = g place.2) → v.mapStrings f = v.mapStrings g
  | path, .null, _ | path, .bool _, _ | path, .number _, _ => by rw [mapStrings, mapStrings]
  | path, .string s, h => by
    rw [mapStrings, mapStrings, h (path, s.toList) (by simp [strings])]
  | path, .array items, h => by
    rw [strings] at h
    rw [mapStrings, mapStrings, mapItems_congr path 0 items h]
  | path, .object members, h => by
    rw [strings] at h
    rw [mapStrings, mapStrings, mapMembers_congr path members h]

theorem mapItems_congr (path : String) : ∀ (i : Nat) (items : List Value),
    (∀ place ∈ itemStrings path i items, f place.2 = g place.2) → mapItems f items = mapItems g items
  | i, [], _ => by rw [mapItems, mapItems]
  | i, v :: rest, h => by
    rw [itemStrings, List.forall_mem_append] at h
    rw [mapItems, mapItems, mapStrings_congr (itemPath path i) v h.1,
      mapItems_congr path (i + 1) rest h.2]

theorem mapMembers_congr (path : String) : ∀ members : List (String × Value),
    (∀ place ∈ memberStrings path members, f place.2 = g place.2) → mapMembers f members = mapMembers g members
  | [], _ => by rw [mapMembers, mapMembers]
  | (k, v) :: rest, h => by
    rw [memberStrings, List.forall_mem_append] at h
    rw [mapMembers, mapMembers, mapStrings_congr (memberPath path k) v h.1,
      mapMembers_congr path rest h.2]

end

theorem missingAt?_eq_none_iff {place : String × List Char} :
    missingAt? vars place = none ↔ ∀ name, Refers place.2 name → Provided vars name := by
  rw [missingAt?, Option.map_eq_none_iff, firstMissing?_eq_none_iff]

/-- Nothing is missing where every name of the configuration is provided. -/
theorem findSome?_missingAt?_eq_none_iff :
    (strings "" v).findSome? (missingAt? vars) = none ↔ ∀ name ∈ referencedNames v, Provided vars name := by
  simp only [List.findSome?_eq_none_iff, missingAt?_eq_none_iff, mem_referencedNames_iff]
  constructor
  · rintro h name ⟨place, hplace, hrefers⟩
    exact h place hplace name hrefers
  · intro h place hplace name hrefers
    exact h name ⟨place, hplace, hrefers⟩

theorem findSome?_missingAt?_eq_some_iff :
    (strings "" v).findSome? (missingAt? vars) = some missing ↔ FirstMissing vars v missing := by
  rw [List.findSome?_eq_some_iff]
  constructor
  · rintro ⟨earlier, ⟨path, s⟩, later, hstrings, hmissing, hearlier⟩
    obtain ⟨name, hfirst, rfl⟩ := Option.map_eq_some_iff.1 hmissing
    obtain ⟨hname, hnot, before, after, rfl, hlast, hbefore⟩ := firstMissing?_eq_some_iff.1 hfirst
    exact ⟨earlier, before, after, later, hstrings, hname, hlast, hnot,
      fun place hplace => missingAt?_eq_none_iff.1 (hearlier place hplace), hbefore⟩
  · rintro ⟨earlier, before, after, later, hstrings, hname, hlast, hnot, hearlier, hbefore⟩
    refine ⟨earlier, _, later, hstrings, ?_, fun place hplace => missingAt?_eq_none_iff.2 (hearlier place hplace)⟩
    have hfirst := firstMissing?_eq_some_iff.2 ⟨hname, hnot, before, after, rfl, hlast, hbefore⟩
    rw [missingAt?, hfirst]
    rfl

theorem substitute_eq_ok_iff {w : Value} :
    substitute vars v = .ok w ↔
      (∀ name ∈ referencedNames v, Provided vars name) ∧ w = v.mapStrings (filled vars) := by
  rw [substitute, value_eq, ← findSome?_missingAt?_eq_none_iff]
  cases (strings "" v).findSome? (missingAt? vars) with
  | some missing => simp [outcome]
  | none => simp [outcome, eq_comm]

theorem substitute_eq_error_iff : substitute vars v = .error missing ↔ FirstMissing vars v missing := by
  rw [substitute, value_eq, ← findSome?_missingAt?_eq_some_iff]
  cases (strings "" v).findSome? (missingAt? vars) with
  | some missing => simp [outcome]
  | none => simp [outcome]

/-- A configuration can be substituted exactly where all names that are collected from it are provided.  Then only
its strings are replaced, each by what its references say, and the result depends on those names alone.  Otherwise
the first reference without a value is reported, with the path of its string. -/
theorem substitute_spec (vars : Variables) (v : Value) :
    ((∃ w, substitute vars v = .ok w) ↔ ∀ name ∈ referencedNames v, Provided vars name) ∧
    (∀ w, substitute vars v = .ok w →
      Rewritten (Expanded vars) v w ∧
        ∀ vars', (∀ name ∈ referencedNames v, vars' name = vars name) → substitute vars' v = .ok w) ∧
    ∀ missing, substitute vars v = .error missing ↔ FirstMissing vars v missing := by
  refine ⟨by simp [substitute_eq_ok_iff], fun w hw => ?_, fun missing => substitute_eq_error_iff⟩
  obtain ⟨hprovided, rfl⟩ := substitute_eq_ok_iff.1 hw
  have hneeded : ∀ place ∈ strings "" v, ∀ name ∈ neededNames place.2, name ∈ referencedNames v := by
    intro place hplace name hname
    exact mem_referencedNames_iff.2 ⟨place, hplace, mem_neededNames_iff.1 hname⟩
  constructor
  · refine rewritten_mapStrings "" v fun place hplace => expanded_filled fun name hname => ?_
    exact hprovided name (hneeded place hplace name hname)
  · intro vars' hagree
    refine substitute_eq_ok_iff.2 ⟨fun name hname => ?_, ?_⟩
    · rw [Provided, hagree name hname]
      exact hprovided name hname
    · refine (mapStrings_congr "" v fun place hplace => filled_congr fun name hname => ?_).symm
      exact hagree name (hneeded place hplace name hname)

/-- A configuration with an escaped reference beside one that is replaced, and with another one in an array. -/
def gateway : Value :=
  .object [("url", .string "http://$HOST.${HOST}/$${PATH}"), ("ports", .array [.null, .string "${PORT}"])]

/-- The host is named like a reference. -/
def gatewayVariables : Variables := fun name =>
  if name = "HOST" then some "${PORT}" else if name = "PORT" then some "80" else none

theorem substitute_spec_gateway :
    (∃ w, substitute gatewayVariables gateway = .ok w ∧ Rewritten (Expanded gatewayVariables) gateway w ∧
      substitute (fun name => if name = "PATH" then some "bin" else gatewayVariables name) gateway = .ok w) ∧
    FirstMissing (fun name => if name = "PORT" then some "" else gatewayVariables name) gateway
      ⟨"PORT", "ports[1]"⟩ := by
  have hnames : referencedNames gateway = ["HOST", "PORT"] := by cbv
  constructor
  · have hok : substitute gatewayVariables gateway =
        .ok (.object [("url", .string "http://$HOST.${PORT}/${PATH}"),
          ("ports", .array [.null, .string "80"])]) := by cbv
    obtain ⟨hrewritten, hagree⟩ := (substitute_spec gatewayVariables gateway).2.1 _ hok
    refine ⟨_, hok, hrewritten, hagree _ ?_⟩
    rw [hnames]
    decide
  · have herror : substitute (fun name => if name = "PORT" then some "" else gatewayVariables name) gateway =
        .error ⟨"PORT", "ports[1]"⟩ := by cbv
    exact ((substitute_spec _ gateway).2.2 _).1 herror

end LayeredConfig.Substitution
