import LayeredConfig.Proofs.Json.Numbers
import LayeredConfig.Proofs.Text.Fields
import LayeredConfig.Render

/-!
# Reading properties back line by line

A properties text has a line for each property: its key, a colon and a space, and the text of its value.  Nothing
is escaped in it, so that a reader who takes it line by line and divides every line at its first colon and space
also reads what a string says behind a line break.  All other values are written without any.

* `newline_not_mem_compact` — the text of a value is a single line, by recursion on the value.
* `readLine` — the property that is read from a line.
* `readLine_eq_some_iff` — the lines that a property is read from.
* `readLines_propertiesText` — everything that is read from a properties text.
* `readLines_propertiesText_iff` — when this is what was written.
-/

namespace LayeredConfig

/-! ## Values on a single line -/

namespace Json

theorem hexDigit_ne_newline (n : Nat) : hexDigit n ≠ '\n' := by
  have hdigits : ∀ i < 16, Nat.digitChar i ≠ '\n' := by decide
  exact hdigits _ (Nat.mod_lt _ (by decide))

theorem newline_not_mem_escape (c : Char) : '\n' ∉ escape c := by
  unfold escape
  split_ifs with _ _ _ _ hnewline
  all_goals simp [(hexDigit_ne_newline _).symm, Ne.symm, *]

theorem newline_not_mem_quote (s : List Char) : '\n' ∉ quote s := by
  simp [quote, newline_not_mem_escape]

end Json

namespace Value

theorem newline_not_mem_number (n : Number) : '\n' ∉ n.json := by
  intro h
  have hchar := Json.isNumberChar_of_mem_json h
  exact absurd hchar (by decide)

mutual

/-- Line breaks are escaped in every string of a value. -/
theorem newline_not_mem_compact : ∀ v : Value, '\n' ∉ v.compact
  | .null => by decide
  | .bool true => by decide
  | .bool false => by decide
  | .number n => newline_not_mem_number n
  | .string s => Json.newline_not_mem_quote s.toList
  | .array items => by
      simp [compact, newline_not_mem_compactItems items]
  | .object members => by
      simp [compact, newline_not_mem_compactMembers members]

theorem newline_not_mem_compactItems : ∀ items : List Value, '\n' ∉ compactItems items
  | [] => by simp [compactItems]
  | [v] => newline_not_mem_compact v
  | v :: w :: rest => by
      simp [compactItems, newline_not_mem_compact v, newline_not_mem_compactItems (w :: rest)]

theorem newline_not_mem_compactMembers : ∀ members : List (String × Value), '\n' ∉ compactMembers members
  | [] => by simp [compactMembers]
  | [(k, v)] => by
      simp [compactMembers, Json.newline_not_mem_quote, newline_not_mem_compact v]
  | (k, v) :: m :: rest => by
      simp [compactMembers, Json.newline_not_mem_quote, newline_not_mem_compact v,
        newline_not_mem_compactMembers (m :: rest)]

end

/-- The text of a value in a line; null is written by its name. -/
def lineText (v : Value) : List Char := v.plainText?.getD "null".toList

/-- Only a string is ever written with a line break. -/
theorem newline_not_mem_lineText_iff {v : Value} :
    '\n' ∉ v.lineText ↔ ∀ s ∈ v.string?, '\n' ∉ s.toList := by
  cases v with
  | null => simp [lineText, plainText?, string?]
  | bool b => simpa [lineText, plainText?, string?] using newline_not_mem_compact (.bool b)
  | number n => simpa [lineText, plainText?, string?] using newline_not_mem_compact (.number n)
  | string s => simp [lineText, plainText?, string?]
  | array items => simpa [lineText, plainText?, string?] using newline_not_mem_compact (.array items)
  | object members => simpa [lineText, plainText?, string?] using newline_not_mem_compact (.object members)

end Value

namespace Render

/-! ## Reading lines -/

/-- The key and the text that a line is divided into at its first colon and space. -/
def readLine : List Char → Option (List Char × List Char)
  | [] => none
  | ':' :: ' ' :: text => some ([], text)
  | c :: rest => (readLine rest).map fun (key, text) => (c :: key, text)

/-- What is read from a text line by line. -/
def readLines (s : List Char) : List (Option (List Char × List Char)) := (Text.fields '\n' s).map readLine

/-- A key that can be told from the rest of its line. -/
structure IsLineKey (key : String) : Prop where
  no_newline : '\n' ∉ key.toList
  no_colon : ¬ [':', ' '] <:+: key.toList

instance : DecidablePred IsLineKey := fun key =>
  decidable_of_iff ('\n' ∉ key.toList ∧ ¬ [':', ' '] <:+: key.toList)
    ⟨fun h => ⟨h.1, h.2⟩, fun h => ⟨h.no_newline, h.no_colon⟩⟩

variable {key text s : List Char} {flat : Properties}

theorem readLine_cons {c : Char} (h : ¬ [':', ' '] <+: c :: s) :
    readLine (c :: s) = (readLine s).map fun (key, text) => (c :: key, text) := by
  rw [readLine]
  rintro text rfl rfl
  exact h (List.prefix_append [':', ' '] text)

/-- A property is read from a line of its key, a colon and a space, and its text, where the key does not hold a colon
and a space itself. -/
theorem readLine_eq_some_iff :
    readLine s = some (key, text) ↔ s = key ++ ':' :: ' ' :: text ∧ ¬ [':', ' '] <:+: key := by
  induction s generalizing key with
  | nil => simp [readLine]
  | cons c s ih =>
      by_cases hcolon : [':', ' '] <+: c :: s
      · obtain ⟨rest, hrest⟩ := hcolon
        rw [← hrest]
        constructor
        · intro h
          obtain ⟨rfl, rfl⟩ := Prod.mk.inj (Option.some.inj h)
          exact ⟨rfl, by decide⟩
        · rintro ⟨hs, hkey⟩
          rcases key with _ | ⟨a, _ | ⟨b, key⟩⟩
          · obtain rfl : rest = text := by simpa using hs
            rfl
          · simp at hs
          · -- a longer key would hold the colon and the space itself
            obtain ⟨rfl, rfl, -⟩ : ':' = a ∧ ' ' = b ∧ _ := by simpa using hs
            exact absurd (List.prefix_append [':', ' '] key).isInfix hkey
      · rw [readLine_cons hcolon, Option.map_eq_some_iff]
        constructor
        · rintro ⟨⟨key, text⟩, h, heq⟩
          obtain ⟨rfl, rfl⟩ := Prod.mk.inj heq
          obtain ⟨rfl, hkey⟩ := ih.1 h
          refine ⟨rfl, fun hinfix => ?_⟩
          rcases List.infix_cons_iff.1 hinfix with hstart | hinfix
          · exact hcolon (hstart.trans (List.prefix_append _ _))
          · exact hkey hinfix
        · rintro ⟨hs, hkey⟩
          cases key with
          | nil =>
              rw [hs] at hcolon
              exact absurd (List.prefix_append [':', ' '] text) hcolon
          | cons a key =>
              obtain ⟨rfl, rfl⟩ := List.cons.inj hs
              exact ⟨(key, text), ih.2 ⟨rfl, fun h => hkey (List.infix_cons h)⟩, rfl⟩

example : readLine "a:: b: c".toList = some ("a:".toList, "b: c".toList) := by decide

/-- What is read from the lines of one property: its key with the first line of its value, and then whatever the
further lines of the value say. -/
theorem readLines_propertyLine {key : String} (h : IsLineKey key) (v : Value) :
    readLines (propertyLine key v) =
      some (key.toList, v.lineText.takeWhile (· ≠ '\n')) ::
        (Text.fields '\n' v.lineText).tail.map readLine := by
  have hline : propertyLine key v = (key.toList ++ [':', ' ']) ++ v.lineText := by
    rw [List.append_assoc]
    rfl
  have hbreak : '\n' ∉ key.toList ++ [':', ' '] := by
    simp [h.no_newline]
  rw [readLines, hline, Text.fields_append_of_not_mem hbreak, List.map_cons, List.append_assoc]
  congr 1
  exact readLine_eq_some_iff.2 ⟨rfl, h.no_colon⟩

/-- What is read from a properties text: what is read from its properties, one after another. -/
theorem readLines_propertiesText (hne : flat.entries ≠ []) :
    readLines (propertiesText flat) = flat.entries.flatMap fun e => readLines (propertyLine e.1 e.2) := by
  unfold readLines propertiesText
  rw [Text.fields_joinWith (by simpa using hne), List.flatMap_map, List.map_flatMap]

/-- A text that is read from a line has no line break. -/
theorem newline_not_mem_of_mem_readLines (h : some (key, text) ∈ readLines s) : '\n' ∉ text := by
  obtain ⟨line, hline, hread⟩ := List.mem_map.1 h
  obtain ⟨rfl, -⟩ := readLine_eq_some_iff.1 hread
  have hbreak := Text.not_mem_of_mem_fields hline
  simp at hbreak
  exact hbreak.2

/-- The properties that are read line by line are those that were written, in order and one a line, exactly if no
string has a line break in it.  Values of any other kind do no harm. -/
theorem readLines_propertiesText_iff (hne : flat.entries ≠ []) (hkeys : ∀ e ∈ flat.entries, IsLineKey e.1) :
    readLines (propertiesText flat) = flat.entries.map (fun e => some (e.1.toList, e.2.lineText)) ↔
      ∀ e ∈ flat.entries, ∀ s ∈ e.2.string?, '\n' ∉ s.toList := by
  constructor
  · intro h e he
    have hread : some (e.1.toList, e.2.lineText) ∈ readLines (propertiesText flat) := by
      rw [h]
      exact List.mem_map_of_mem he
    exact Value.newline_not_mem_lineText_iff.1 (newline_not_mem_of_mem_readLines hread)
  · intro h
    rw [readLines_propertiesText hne, List.map_eq_flatMap]
    refine List.flatMap_congr fun e he => ?_
    have hbreak := Value.newline_not_mem_lineText_iff.2 (h e he)
    have hfirst : e.2.lineText.takeWhile (· ≠ '\n') = e.2.lineText := by
      rw [List.takeWhile_eq_self_iff]
      intro c hc
      simpa using ne_of_mem_of_not_mem hc hbreak
    rw [readLines_propertyLine (hkeys e he), hfirst, Text.fields_of_not_mem hbreak]
    rfl

/-- Values of every kind, with line breaks, colons and what looks like further properties in them. -/
def plainProperties : Properties where
  entries := [("owner", .null), ("motd", .array [.string "hi\nadmin: true"]), ("url", .string "a: b: c"),
    ("note:", .object [("x\ny", .string "\n")]), ("", .string ""),
    ("n", .number (.whole ⟨-7, by decide, by decide⟩))]
  nodup := by decide

theorem readLines_propertiesText_iff_plainProperties :
    readLines (propertiesText plainProperties) =
      plainProperties.entries.map fun e => some (e.1.toList, e.2.lineText) :=
  (readLines_propertiesText_iff (by decide) (by decide)).2 (by decide)

/-- A string with a line break in it. -/
def brokenProperties : Properties where
  entries := [("a", .string "x\nadmin: true")]
  nodup := by decide

/-- A value can add a property. -/
theorem not_readLines_propertiesText :
    ¬ ∀ flat : Properties, flat.entries ≠ [] → (∀ e ∈ flat.entries, IsLineKey e.1) →
      readLines (propertiesText flat) = flat.entries.map fun e => some (e.1.toList, e.2.lineText) := by
  intro h
  exact absurd (h brokenProperties (by decide) (by decide)) (by decide)

end Render

end LayeredConfig
