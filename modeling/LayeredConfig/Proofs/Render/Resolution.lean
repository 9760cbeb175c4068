import LayeredConfig.Proofs.Json.RoundTrip
import LayeredConfig.Proofs.Placeholder.Braces
import LayeredConfig.Proofs.Placeholder.Quotation
import LayeredConfig.Proofs.Structure.Leaves
import LayeredConfig.Render
import Mathlib

/-!
# Placeholders in rendered texts

Placeholders are replaced in the finished text of an environment, where the values stand among names,
delimiters and other values.  Where no value mixes with what stands around it, this is the same as resolving
every value first: the lines of the properties, or the strings of the JSON document.

* `resolvesTo_compact` — the text of a value, by recursion on the value.
* `linesResolved`, `linesResolved_of_balanced` — the text of the properties.
* `documentText` — the text of the document.
* `environment_resolves_values` — both, and the JSON text is read back as the resolved document.
* `not_resolved_in_finished_text` — environments of which neither holds.
-/

namespace LayeredConfig

open Json (escape quote)
open Placeholder

variable {flat : Properties}

/-- Names that nothing is replaced in. -/
def InertNames (names : List String) : Prop := ∀ k ∈ names, Inert k.toList

instance : DecidablePred InertNames := fun names =>
  inferInstanceAs (Decidable (∀ k ∈ names, Inert k.toList))

/-- A leaf that is no string, or one that is resolved between quotes as on its own. -/
def QuotableLeaf (flat : Properties) (leaf : Value) : Prop :=
  ∀ s ∈ leaf.string?, Placeholder.Quotable flat s.toList

instance (flat : Properties) : DecidablePred (QuotableLeaf flat) := fun leaf =>
  inferInstanceAs (Decidable (∀ s ∈ leaf.string?, Placeholder.Quotable flat s.toList))

/-- A value that is resolved within a JSON document string by string. -/
def Value.Quotable (flat : Properties) (v : Value) : Prop := v.Every InertNames (QuotableLeaf flat)

instance (flat : Properties) : DecidablePred (Value.Quotable flat) := fun v =>
  inferInstanceAs (Decidable (v.Every InertNames (QuotableLeaf flat)))

namespace Placeholder

theorem resolvesTo_singleton {c : Char} (hc : c ≠ '$' ∧ c ≠ '\\' ∧ c ≠ maskChar) :
    ResolvesTo flat [c] [c] :=
  resolvesTo_nil.cons hc

theorem ResolvesTo.quote {s t : List Char} (h : ResolvesTo flat (s.flatMap escape) (t.flatMap escape)) :
    ResolvesTo flat (quote s) (quote t) :=
  (h.append (resolvesTo_singleton (by decide)) (detached_cons.2 (by decide))).cons (by decide)

theorem Inert.escape {s : List Char} (h : Inert s) : Inert (s.flatMap escape) where
  no_opening := by rw [hasOpening_escape, h.no_opening]
  no_mask := fun hmem => h.no_mask (mem_of_mem_escape_maskChar hmem)

theorem resolvesTo_json (n : Number) : ResolvesTo flat n.json n.json := by
  refine (inert_of_no_dollar (fun hmem => ?_) fun hmem => ?_).resolvesTo
  · exact absurd (Json.isNumberChar_of_mem_json hmem) (by decide)
  · exact absurd (Json.isNumberChar_of_mem_json hmem) (by decide)

end Placeholder

namespace Value

mutual

/-- In the text of a value the strings are resolved, and nothing else changes. -/
theorem resolvesTo_compact : ∀ {v : Value}, v.Quotable flat →
    ResolvesTo flat v.compact (v.mapStrings (resolve flat)).compact
  | .null, _ => by
    rw [mapStrings, compact]
    exact Inert.resolvesTo (by decide)
  | .bool b, _ => by
    rw [mapStrings, compact]
    cases b <;> exact Inert.resolvesTo (by decide)
  | .number n, _ => by
    rw [mapStrings, compact]
    exact resolvesTo_json n
  | .string s, h => by
    have hs : Placeholder.Quotable flat s.toList := h s rfl
    rw [mapStrings, compact, compact, String.toList_ofList]
    exact hs.resolvesTo.quote
  | .array items, h => by
    have hclose : ResolvesTo flat [']'] [']'] := resolvesTo_singleton (by decide)
    rw [mapStrings, compact, compact]
    exact ((resolvesTo_compactItems h).append hclose (detached_cons.2 (by decide))).cons (by decide)
  | .object members, h => by
    have hclose : ResolvesTo flat ['}'] ['}'] := resolvesTo_singleton (by decide)
    rw [mapStrings, compact, compact]
    exact ((resolvesTo_compactMembers h.1 h.2).append hclose (detached_cons.2 (by decide))).cons
      (by decide)

theorem resolvesTo_compactItems : ∀ {items : List Value},
    EveryItem InertNames (QuotableLeaf flat) items →
      ResolvesTo flat (compactItems items) (compactItems (mapItems (resolve flat) items))
  | [], _ => by
    rw [mapItems, compactItems]
    exact resolvesTo_nil
  | [v], h => by
    rw [mapItems, mapItems, compactItems, compactItems]
    exact resolvesTo_compact h.1
  | v :: w :: items, h => by
    have hrest : ResolvesTo flat (compactItems (w :: items))
        (compactItems (mapItems (resolve flat) (w :: items))) := resolvesTo_compactItems h.2
    rw [mapItems] at hrest
    rw [mapItems, mapItems, compactItems, compactItems]
    exact (resolvesTo_compact h.1).append (hrest.cons (by decide)) (detached_cons.2 (by decide))

theorem resolvesTo_compactMembers : ∀ {members : List (String × Value)},
    InertNames (Entries.keys members) → EveryMember InertNames (QuotableLeaf flat) members →
      ResolvesTo flat (compactMembers members) (compactMembers (mapMembers (resolve flat) members))
  | [], _, _ => by
    rw [mapMembers, compactMembers]
    exact resolvesTo_nil
  | [(k, v)], hnames, h => by
    have hk : Inert k.toList := hnames k (by simp)
    rw [mapMembers, mapMembers, compactMembers, compactMembers]
    exact hk.escape.resolvesTo.quote.append ((resolvesTo_compact h.1).cons (by decide))
      (detached_cons.2 (by decide))
  | (k, v) :: m :: members, hnames, h => by
    rw [Entries.keys_cons, InertNames, List.forall_mem_cons] at hnames
    have hrest := resolvesTo_compactMembers hnames.2 h.2
    rw [mapMembers] at hrest
    rw [mapMembers, mapMembers, compactMembers, compactMembers]
    exact hnames.1.escape.resolvesTo.quote.append
      (((resolvesTo_compact h.1).append (hrest.cons (by decide)) (detached_cons.2 (by decide))).cons
        (by decide)) (detached_cons.2 (by decide))

end

end Value

namespace Render

/-- The line of a property with its value resolved on its own. -/
def resolvedLine (flat : Properties) (key : String) (value : Value) : List Char :=
  key.toList ++ ':' :: ' ' :: ((value.plainText?.map (resolve flat)).getD "null".toList)

/-- One line for each property, with its value resolved on its own. -/
def resolvedLines (flat : Properties) : List Char :=
  Text.joinWith ['\n'] (flat.entries.map fun e => resolvedLine flat e.1 e.2)

/-- A document with every string of it resolved on its own. -/
def resolvedDocument (flat : Properties) (m : NodeMap) : Value :=
  (Node.map m).toValue.mapStrings (resolve flat)

/-- The properties of an environment are rendered with their values resolved and nothing else changed. -/
def LinesResolved (options : RenderOptions) (profiles : String) (e : Environment) : Prop :=
  environment options .properties profiles e = .ok (String.ofList (resolvedLines e.merged))

/-- An environment is rendered to the text of its document with every string resolved. -/
def DocumentResolved (options : RenderOptions) (profiles : String) (e : Environment) (m : NodeMap) :
    Prop :=
  ∃ text, environment options .json profiles e = .ok text ∧
    Value.parse? text = some (resolvedDocument e.merged m)

theorem resolvesTo_propertyLine {key : String} {value : Value} (hkey : Inert key.toList)
    (hvalue : ∀ text ∈ value.plainText?, Contained flat text) :
    ResolvesTo flat (propertyLine key value) (resolvedLine flat key value) := by
  have hplain : ResolvesTo flat (value.plainText?.getD "null".toList)
      ((value.plainText?.map (resolve flat)).getD "null".toList) := by
    cases htext : value.plainText? with
    | none => exact Inert.resolvesTo (by decide)
    | some text => exact (hvalue text htext).resolvesTo
  exact hkey.resolvesTo.append ((hplain.cons (by decide)).cons (by decide))
    (detached_cons.2 (by decide))

theorem resolvesTo_joinWith {α : Type} {f g : α → List Char} {entries : List α}
    (h : ∀ x ∈ entries, ResolvesTo flat (f x) (g x)) :
    ResolvesTo flat (Text.joinWith ['\n'] (entries.map f)) (Text.joinWith ['\n'] (entries.map g)) := by
  induction entries with
  | nil => exact resolvesTo_nil
  | cons x entries ih =>
      obtain ⟨hx, hentries⟩ := List.forall_mem_cons.1 h
      cases entries with
      | nil => exact hx
      | cons y entries =>
          have hrest := (ih hentries).cons (c := '\n') (by decide)
          simpa [Text.joinWith] using hx.append hrest (detached_cons.2 (by decide))

variable {options : RenderOptions} {profiles : String} {e : Environment}

theorem environment_eq (format : OutputFormat) (hprofiles : '-' ∉ profiles.toList)
    {rendered : List Char} (h : text options format e.merged = .ok rendered) :
    environment options format profiles e = .ok (String.ofList rendered) := by
  have hcheck : checkProfiles profiles = .ok () := by
    rw [checkProfiles, if_neg (by simpa using hprofiles)]
  rw [environment, hcheck, h]
  rfl

theorem linesResolved (hon : options.resolvePlaceholders = true) (hprofiles : '-' ∉ profiles.toList)
    (hkeys : ∀ k ∈ e.merged.keys, Inert k.toList)
    (hvalues : ∀ x ∈ e.merged.entries, ∀ text ∈ x.2.plainText?, Contained e.merged text) :
    LinesResolved options profiles e := by
  have hlines : ResolvesTo e.merged (propertiesText e.merged) (resolvedLines e.merged) :=
    resolvesTo_joinWith fun x hx =>
      resolvesTo_propertyLine (hkeys x.1 (List.mem_map_of_mem hx)) (hvalues x hx)
  refine environment_eq .properties hprofiles ?_
  rw [text, finish, if_pos hon, hlines.resolve_eq]

/-- Where every value closes the braces that it opens, the lines are resolved one by one. -/
theorem linesResolved_of_balanced (hon : options.resolvePlaceholders = true)
    (hprofiles : '-' ∉ profiles.toList) (hkeys : ∀ k ∈ e.merged.keys, Inert k.toList)
    (hvalues : ∀ x ∈ e.merged.entries, ∀ text ∈ x.2.plainText?, Balanced text ∧ maskChar ∉ text) :
    LinesResolved options profiles e := by
  have hbound : ∀ r, ∀ text ∈ bound? e.merged r, Balanced text := by
    intro r text htext
    obtain ⟨v, hget, hv⟩ := Option.bind_eq_some_iff.1 htext
    exact (hvalues _ (OrderedMap.mem_entries_iff.2 hget) text hv).1
  refine linesResolved hon hprofiles hkeys fun x hx text htext => ?_
  obtain ⟨hbalanced, hmask⟩ := hvalues x hx text htext
  exact contained_of_balanced hbound hbalanced hmask

/-- The document of keys without placeholders and of quotable values is quotable. -/
theorem quotable_build {m : NodeMap} (hbuild : Structure.build flat = .ok m)
    (hkeys : ∀ k ∈ flat.keys, '$' ∉ k.toList ∧ maskChar ∉ k.toList)
    (hvalues : ∀ x ∈ flat.entries, x.2.Quotable flat) : (Node.map m).toValue.Quotable flat := by
  have hchars : ∀ x ∈ flat.entries, ∀ c ∈ x.1.toList, c ≠ '$' ∧ c ≠ maskChar := by
    intro x hx c hc
    obtain ⟨hdollar, hmask⟩ := hkeys x.1 (List.mem_map_of_mem hx)
    constructor
    · rintro rfl
      exact hdollar hc
    · rintro rfl
      exact hmask hc
  refine Structure.every_build hbuild (fun c hc => ?_) hchars hvalues
    (fun names _ hnames k hk => inert_of_no_dollar (fun hmem => (hnames k hk _ hmem).1 rfl)
      fun hmem => (hnames k hk _ hmem).2 rfl) (by simp [QuotableLeaf, Value.string?])
  constructor
  · rintro rfl
    exact absurd hc (by decide)
  · rintro rfl
    exact absurd hc (by decide)

theorem readable_build {m : NodeMap} (hbuild : Structure.build flat = .ok m)
    (hvalues : ∀ x ∈ flat.entries, x.2.Readable) : (Node.map m).toValue.Readable :=
  Structure.every_build (C := fun _ => True) hbuild (fun _ _ => trivial) (fun _ _ _ _ => trivial) hvalues
    (fun _ hnodup _ => hnodup) trivial

theorem documentText {m : NodeMap} (hon : options.resolvePlaceholders = true)
    (hprofiles : '-' ∉ profiles.toList) (hbuild : Structure.build e.merged = .ok m)
    (hdocument : (Node.map m).toValue.Quotable e.merged) :
    environment options .json profiles e =
      .ok (String.ofList (resolvedDocument e.merged m).compact) := by
  refine environment_eq .json hprofiles ?_
  have hroot : Structure.buildRoot false e.merged = .ok (.map m, false) := by
    rw [Structure.buildRoot, hbuild]
    rfl
  rw [text, hroot]
  change Except.ok (finish options e.merged (Node.map m).toValue.compact) = _
  rw [finish, if_pos hon, (Value.resolvesTo_compact hdocument).resolve_eq, resolvedDocument]

/-- Rendering resolves the values and nothing else, where no value mixes with the text around it. -/
theorem environment_resolves_values {m : NodeMap} (hon : options.resolvePlaceholders = true)
    (hprofiles : '-' ∉ profiles.toList) (hbuild : Structure.build e.merged = .ok m)
    (hkeys : ∀ k ∈ e.merged.keys, '$' ∉ k.toList ∧ maskChar ∉ k.toList) :
    ((∀ x ∈ e.merged.entries, ∀ text ∈ x.2.plainText?, Contained e.merged text) →
      LinesResolved options profiles e) ∧
    ((∀ x ∈ e.merged.entries, x.2.Quotable e.merged) →
      environment options .json profiles e =
        .ok (String.ofList (resolvedDocument e.merged m).compact) ∧
      ((∀ x ∈ e.merged.entries, x.2.Readable) → DocumentResolved options profiles e m)) := by
  constructor
  · intro hvalues
    exact linesResolved hon hprofiles (fun k hk => inert_of_no_dollar (hkeys k hk).1 (hkeys k hk).2)
      hvalues
  · intro hvalues
    have htext := documentText hon hprofiles hbuild (quotable_build hbuild hkeys hvalues)
    refine ⟨htext, fun hreadable => ⟨_, htext, Value.parse?_compact ?_⟩⟩
    exact (readable_build hbuild hreadable).mapStrings fun _ _ _ => trivial

/-- Placeholders within placeholders, a default, a repeated key and a text with quotes and braces. -/
def greetings : Environment where
  name := "app"
  profiles := ["p"]
  label := none
  sources := [
    ⟨"app-p", .ofList [("message", .string "Hello ${user.name:you}!"),
      ("user.name", .string "${user.first} L."), ("hosts[0]", .string "${port}")]⟩,
    ⟨"app", .ofList [("user.first", .string "Ada"), ("quote", .string "a \"b\" {c}"),
      ("port", .number (.whole ⟨8080, by decide, by decide⟩)), ("message", .null)]⟩]

/-- The document of the greetings, with its placeholders. -/
def greetingsNodes : NodeMap := [
  ("user", .map [("first", .leaf (.string "Ada")), ("name", .leaf (.string "${user.first} L."))]),
  ("quote", .leaf (.string "a \"b\" {c}")),
  ("port", .leaf (.number (.whole ⟨8080, by decide, by decide⟩))),
  ("message", .leaf (.string "Hello ${user.name:you}!")),
  ("hosts", .list [.leaf (.string "${port}")])]

theorem environment_resolves_values_greetings :
    environment {} .properties "p" greetings = .ok ("user.first: Ada\nquote: a \"b\" {c}\n" ++
      "port: 8080\nmessage: Hello Ada L.!\nuser.name: Ada L.\nhosts[0]: 8080") ∧
    environment {} .json "p" greetings = .ok ("\x7b\"user\":\x7b\"first\":\"Ada\"," ++
      "\"name\":\"Ada L.\"\x7d,\"quote\":\"a \\\"b\\\" {c}\",\"port\":8080," ++
      "\"message\":\"Hello Ada L.!\",\"hosts\":[\"8080\"]\x7d") ∧
    DocumentResolved {} "p" greetings greetingsNodes := by
  have hentries : greetings.merged.entries = [("user.first", .string "Ada"),
      ("quote", .string "a \"b\" {c}"), ("port", .number (.whole ⟨8080, by decide, by decide⟩)),
      ("message", .string "Hello ${user.name:you}!"), ("user.name", .string "${user.first} L."),
      ("hosts[0]", .string "${port}")] := by decide
  have hbuild : Structure.build greetings.merged = .ok greetingsNodes := by
    rw [Structure.build, hentries]
    cbv
  obtain ⟨hlines, hdocument⟩ :=
    @environment_resolves_values {} "p" greetings greetingsNodes rfl (by decide) hbuild (by decide)
  obtain ⟨htext, hresolved⟩ := hdocument (by decide)
  refine ⟨(hlines (by decide)).trans (congrArg _ ?_), htext.trans (congrArg _ ?_),
    hresolved (by decide)⟩
  · decide
  · decide

/-- A quote in the text that a placeholder is bound to. -/
def quoted : Environment where
  name := "app"
  profiles := ["p"]
  label := none
  sources := [⟨"s", .ofList [("a", .string "x\"y"), ("b", .string "${a}")]⟩]

/-- A value that ends within a placeholder, and one behind it that closes the brace. -/
def straddling : Environment where
  name := "app"
  profiles := ["p"]
  label := none
  sources := [⟨"s", .ofList [("a", .string "$\x7bx"), ("b", .string "y\x7d")]⟩]

/-- Values and the text around them do mix: the first environment is rendered to a text that is no JSON,
and of the second one two lines become one. -/
theorem not_resolved_in_finished_text :
    ((∀ k ∈ quoted.merged.keys, '$' ∉ k.toList) ∧
      ∃ m, Structure.build quoted.merged = .ok m ∧ ¬ DocumentResolved {} "p" quoted m) ∧
    ((∀ k ∈ straddling.merged.keys, '$' ∉ k.toList) ∧
      (∃ m, Structure.build straddling.merged = .ok m) ∧ ¬ LinesResolved {} "p" straddling) := by
  refine ⟨⟨by decide, [("a", .leaf (.string "x\"y")), ("b", .leaf (.string "${a}"))], by cbv, ?_⟩,
    by decide, ⟨[("a", .leaf (.string "$\x7bx")), ("b", .leaf (.string "y\x7d"))], by cbv⟩, ?_⟩
  · rintro ⟨text, htext, hparse⟩
    have hrendered : environment {} .json "p" quoted =
        .ok "\x7b\"a\":\"x\\\"y\",\"b\":\"x\"y\"\x7d" := by cbv
    have hnone : Value.parse? "\x7b\"a\":\"x\\\"y\",\"b\":\"x\"y\"\x7d" = none := by cbv
    rw [hrendered, Except.ok.injEq] at htext
    rw [← htext, hnone] at hparse
    contradiction
  · intro hlines
    have hrendered : environment {} .properties "p" straddling = .ok "a:  y" := by cbv
    have hresolved : resolvedLines straddling.merged = "a: $\x7bx\nb: y\x7d".toList := by cbv
    rw [LinesResolved, hrendered, hresolved] at hlines
    exact absurd hlines (by decide)

end Render

end LayeredConfig
