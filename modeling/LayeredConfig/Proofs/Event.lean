import LayeredConfig.Event
import LayeredConfig.Proofs.Json.RoundTrip
import LayeredConfig.Proofs.Redaction.Addresses
import LayeredConfig.Proofs.Render.Lines

/-!
# Log entries

A log holds one entry a line.  Whatever a failure says, its entry stays on its line and is read back from it,
and the passwords of the addresses in it are not there.

* `Entry.newline_not_mem_text` — an entry is a single line.
* `Entry.parse?_text` — an entry is read back.
* `entry_failed_congr` — a password has no influence on the entry of a failure.
-/

namespace LayeredConfig.Event

/-- An entry is a single line. -/
theorem Entry.newline_not_mem_text (e : Entry) : '\n' ∉ e.text := Value.newline_not_mem_compact e.toValue

theorem everyItem_texts (texts : List String) :
    Value.EveryItem List.Nodup Value.ReadsBack (texts.map Value.string) := by
  induction texts with
  | nil => trivial
  | cons text texts ih => exact ⟨trivial, ih⟩

theorem readable_optionalText (text : Option String) : (Environment.optionalText text).Readable := by
  cases text <;> trivial

/-- A count is written as a whole number if it is small enough. -/
theorem ofNat?_cases (n : Nat) :
    Value.ofNat? n = none ∨ ∃ w, Value.ofNat? n = some (.number (.whole w)) := by
  rw [Value.ofNat?]
  cases Whole.ofInt? n <;> simp

/-- The fields of an event have distinct names, and what they hold is read back. -/
theorem readable_toValue (event : Event) : event.toValue.Readable := by
  cases event with
  | resolved application profiles label sources =>
      have hlabel := readable_optionalText label
      rw [Value.Readable] at hlabel ⊢
      simp [toValue, Value.Every, Value.EveryMember, Value.ReadsBack, Entries.keys, hlabel, everyItem_texts sources]
  | rendered format keys =>
      rw [Value.Readable]
      rcases ofNat?_cases keys with hkeys | ⟨w, hkeys⟩ <;>
        simp [toValue, Value.Every, Value.EveryMember, Value.ReadsBack, Entries.keys, hkeys]
  | failed message =>
      rw [Value.Readable]
      simp [toValue, Value.Every, Value.EveryMember, Value.ReadsBack, Entries.keys]

/-- An entry is read back. -/
theorem Entry.parse?_text (e : Entry) : Value.parse? (String.ofList e.text) = some e.toValue := by
  apply Value.parse?_compact
  have hevent := readable_toValue e.event
  rw [Value.Readable] at hevent ⊢
  simp [toValue, entryFields, Value.Every, Value.EveryMember, Value.ReadsBack, Entries.keys, hevent]

/-- Whatever stands around an address, its password has no influence on the entry. -/
theorem entry_failed_congr {user p q : List Char} (huser : Redaction.IsUser user) (hp : Redaction.IsPassword p)
    (hq : Redaction.IsPassword q) (a b : List Char) (requestId timestamp : String) :
    entry requestId timestamp (.failed (String.ofList (a ++ Redaction.address user p ++ b))) =
      entry requestId timestamp (.failed (String.ofList (a ++ Redaction.address user q ++ b))) := by
  simp only [entry, recorded, String.toList_ofList, Redaction.text, Redaction.hidePasswords_address huser hp,
    Redaction.hidePasswords_address huser hq]

end LayeredConfig.Event
