import LayeredConfig.Proofs.Json.Leaves
import LayeredConfig.Proofs.Json.Numbers

/-!
# Reading what was written

The compact text of a value is read back as the value, when the members of its objects have distinct
names.  The reader gathers the digits of a binary64 number in 64 bits and scales them in rounded steps, so
that a binary64 number is asked to be read back on its own.

* `Readable` — the values that are read back.
* `readChars_escape`, `readString_flatMap_escape` — a string behind its opening quote.
* `readValue_compact` — a value in front of more text, by recursion on the value.
* `parse?_compact` — the whole text.
-/

namespace LayeredConfig

namespace Json

variable {c : Char} {s t rest : List Char}

/-! ## Strings -/

theorem readHex_control (h : c.toNat < 0x20) (rest : List Char) :
    readHex ('0' :: '0' :: hexDigit (c.toNat / 16) :: hexDigit c.toNat :: rest) =
      some (c.toNat, rest) := by
  have hdigits : ∀ n < 0x20, hexValue? (hexDigit (n / 16)) = some (n / 16) ∧
      hexValue? (hexDigit n) = some (n % 16) := by decide
  obtain ⟨hhigh, hlow⟩ := hdigits c.toNat h
  have hzero : hexValue? '0' = some 0 := by decide
  have hsum : 16 * (c.toNat / 16) + c.toNat % 16 = c.toNat := by omega
  simp [readHex, hzero, hhigh, hlow, hsum]

theorem readUnit_control (h : c.toNat < 0x20) (rest : List Char) :
    readUnit ('0' :: '0' :: hexDigit (c.toNat / 16) :: hexDigit c.toNat :: rest) = some (c, rest) := by
  have hhigh : ¬ (0xd800 ≤ c.toNat ∧ c.toNat < 0xdc00) := by omega
  have hlow : ¬ (0xdc00 ≤ c.toNat ∧ c.toNat < 0xe000) := by omega
  simp [readUnit, readHex_control h, hhigh, hlow, Char.ofNat_toNat]

theorem readChars_of_readEscape {bound : Nat} (h : readEscape s = some (c, rest)) :
    readChars (bound + 1) ('\\' :: s) = (readChars bound rest).map fun (cs, t) => (c :: cs, t) := by
  rw [readChars, h]
  change (readChars bound rest).bind (fun (cs, t) => some (c :: cs, t)) = _
  cases readChars bound rest <;> rfl

theorem readChars_escape (bound : Nat) (c : Char) (rest : List Char) :
    readChars (bound + 1) (escape c ++ rest) =
      (readChars bound rest).map fun (cs, t) => (c :: cs, t) := by
  unfold escape
  split_ifs with h₁ h₂ h₃ h₄ h₅ h₆ h₇ h₈
  · subst h₁
    exact readChars_of_readEscape rfl
  · subst h₂
    exact readChars_of_readEscape rfl
  · subst h₃
    exact readChars_of_readEscape rfl
  · subst h₄
    exact readChars_of_readEscape rfl
  · subst h₅
    exact readChars_of_readEscape rfl
  · subst h₆
    exact readChars_of_readEscape rfl
  · subst h₇
    exact readChars_of_readEscape rfl
  · exact readChars_of_readEscape (readUnit_control h₈ rest)
  · rw [List.singleton_append, readChars, if_neg h₈]
    · cases readChars bound rest <;> rfl
    · exact h₁
    · exact h₂

theorem readChars_flatMap_escape {bound : Nat} {cs : List Char} (h : cs.length < bound)
    (rest : List Char) : readChars bound (cs.flatMap escape ++ '"' :: rest) = some (cs, rest) := by
  induction cs generalizing bound with
  | nil =>
      cases bound with
      | zero => simp at h
      | succ bound => simp [readChars]
  | cons c cs ih =>
      cases bound with
      | zero => simp at h
      | succ bound =>
          rw [List.flatMap_cons, List.append_assoc, readChars_escape,
            ih (Nat.lt_of_succ_lt_succ h)]
          rfl

theorem length_escape_pos (c : Char) : 0 < (escape c).length := by
  unfold escape
  split_ifs <;> simp

theorem length_le_length_flatMap_escape (cs : List Char) :
    cs.length ≤ (cs.flatMap escape).length := by
  induction cs with
  | nil => simp
  | cons c cs ih =>
      have := length_escape_pos c
      rw [List.flatMap_cons, List.length_append, List.length_cons]
      omega

theorem readString_flatMap_escape (s : String) (rest : List Char) :
    readString (s.toList.flatMap escape ++ '"' :: rest) = some (s, rest) := by
  have hbound : s.toList.length < (s.toList.flatMap escape ++ '"' :: rest).length := by
    have := length_le_length_flatMap_escape s.toList
    rw [List.length_append, List.length_cons]
    omega
  rw [readString, readChars_flatMap_escape hbound]
  simp

end Json

namespace Value

open Json

/-- A leaf that is read back from its text, which is in question for binary64 numbers only. -/
def ReadsBack : Value → Prop
  | .number (.float x) => readNumber (x.text jsonNumber) = some (.float x, [])
  | _ => True

instance : DecidablePred ReadsBack
  | .number (.float x) =>
    inferInstanceAs (Decidable (readNumber (x.text jsonNumber) = some (.float x, [])))
  | .number (.whole _) | .null | .bool _ | .string _ | .array _ | .object _ => isTrue trivial

/-- A value that is read back from its text: the members of its objects have distinct names, and its
binary64 numbers are read back. -/
def Readable (v : Value) : Prop := v.Every List.Nodup ReadsBack

instance : DecidablePred Readable := fun v => inferInstanceAs (Decidable (v.Every List.Nodup ReadsBack))

theorem readNumber_json {n : Number} (h : (Value.number n).Readable) :
    readNumber n.json = some (n, []) := by
  cases n with
  | whole w => exact readNumber_whole w
  | float x => simpa [Readable, Every, ReadsBack, Number.json] using h

theorem readValue_of_readNumber {s t : List Char} {n : Number} {bound : Nat}
    (h : readNumber s = some (n, t)) : readValue (bound + 1) s = some (.number n, t) := by
  obtain ⟨c, u, rfl, hc⟩ := exists_head_of_readNumber h
  have hne := ne_of_number_head hc
  have hspace := isSpace_of_number_head hc
  rw [readValue, List.dropWhile_cons_of_neg (by simp [hspace])]
  split
  · rename_i heq
    exact absurd (List.cons.inj heq).1 (hne 'n' (by decide))
  · rename_i heq
    exact absurd (List.cons.inj heq).1 (hne 't' (by decide))
  · rename_i heq
    exact absurd (List.cons.inj heq).1 (hne 'f' (by decide))
  · rename_i heq
    exact absurd (List.cons.inj heq).1 (hne '"' (by decide))
  · rename_i heq
    exact absurd (List.cons.inj heq).1 (hne '[' (by decide))
  · rename_i heq
    exact absurd (List.cons.inj heq).1 (hne '{' (by decide))
  · rw [h, Option.map_some]

/-- Nothing that is written starts with white space or ends an array. -/
theorem exists_head_of_compact {v : Value} (h : v.Readable) :
    ∃ c s, v.compact = c :: s ∧ isSpace c = false ∧ c ≠ ']' := by
  cases v with
  | null => exact ⟨'n', _, by rw [compact]; rfl, rfl, by decide⟩
  | bool b =>
      cases b
      · exact ⟨'f', _, by rw [compact]; rfl, rfl, by decide⟩
      · exact ⟨'t', _, by rw [compact]; rfl, rfl, by decide⟩
  | number n =>
      obtain ⟨c, s, hcs, hc⟩ := exists_head_of_readNumber (readNumber_json h)
      exact ⟨c, s, by rw [compact, hcs], isSpace_of_number_head hc,
        ne_of_number_head hc ']' (by decide)⟩
  | string s => exact ⟨'"', _, by rw [compact, quote], rfl, by decide⟩
  | array items => exact ⟨'[', _, by rw [compact], rfl, by decide⟩
  | object members => exact ⟨'{', _, by rw [compact], rfl, by decide⟩

theorem exists_bound_of_compact {v : Value} {bound : Nat} (h : v.Readable)
    (hbound : 2 * v.compact.length ≤ bound) : ∃ b, bound = b + 1 := by
  obtain ⟨c, s, hcs, -⟩ := exists_head_of_compact h
  rw [hcs, List.length_cons] at hbound
  exact ⟨bound - 1, by omega⟩

theorem exists_head_of_compactItems {v : Value} (h : v.Readable) (items : List Value) :
    ∃ c s, compactItems (v :: items) = c :: s ∧ isSpace c = false ∧ c ≠ ']' := by
  obtain ⟨c, s, hcs, hc⟩ := exists_head_of_compact h
  cases items with
  | nil => exact ⟨c, s, by rw [compactItems, hcs], hc⟩
  | cons w items => exact ⟨c, _, by rw [compactItems, hcs, List.cons_append], hc⟩

theorem exists_tail_of_compactMembers (m : String × Value) (members : List (String × Value)) :
    ∃ s, compactMembers (m :: members) = '"' :: s := by
  cases members with
  | nil => exact ⟨_, by rw [compactMembers, quote, List.cons_append]⟩
  | cons m' members => exact ⟨_, by rw [compactMembers, quote, List.cons_append]⟩

mutual

/-- A value is read back in front of any text that does not go on with a number. -/
theorem readValue_compact : ∀ (v : Value) (bound : Nat) (rest : List Char), v.Readable →
    2 * v.compact.length ≤ bound → Terminated rest →
      readValue bound (v.compact ++ rest) = some (v, rest)
  | .null, bound, rest, h, hbound, _ => by
    obtain ⟨b, rfl⟩ := exists_bound_of_compact h hbound
    simp [compact, readValue, isSpace]
  | .bool true, bound, rest, h, hbound, _ => by
    obtain ⟨b, rfl⟩ := exists_bound_of_compact h hbound
    simp [compact, boolText, readValue, isSpace]
  | .bool false, bound, rest, h, hbound, _ => by
    obtain ⟨b, rfl⟩ := exists_bound_of_compact h hbound
    simp [compact, boolText, readValue, isSpace]
  | .number n, bound, rest, h, hbound, hrest => by
    obtain ⟨b, rfl⟩ := exists_bound_of_compact h hbound
    rw [compact]
    exact readValue_of_readNumber (readNumber_append (readNumber_json h) hrest)
  | .string s, bound, rest, h, hbound, _ => by
    obtain ⟨b, rfl⟩ := exists_bound_of_compact h hbound
    simp [compact, quote, readValue, isSpace, readString_flatMap_escape]
  | .array [], bound, rest, h, hbound, _ => by
    obtain ⟨b, rfl⟩ := exists_bound_of_compact h hbound
    simp [compact, compactItems, readValue, isSpace]
  | .array (v :: items), bound, rest, h, hbound, _ => by
    obtain ⟨b, rfl⟩ := exists_bound_of_compact h hbound
    rw [compact, List.length_cons, List.length_append] at hbound
    obtain ⟨c, s, hcs, hspace, hclose⟩ := exists_head_of_compactItems h.1 items
    have hitems := readItems_compact (v :: items) b rest (List.cons_ne_nil _ _) h (by omega)
    rw [hcs, List.cons_append] at hitems
    have hopen : isSpace '[' = false := rfl
    simp [compact, hcs, readValue, hopen, hspace, hclose, hitems]
  | .object [], bound, rest, h, hbound, _ => by
    obtain ⟨b, rfl⟩ := exists_bound_of_compact h hbound
    simp [compact, compactMembers, readValue, isSpace]
  | .object ((k, v) :: members), bound, rest, h, hbound, _ => by
    obtain ⟨b, rfl⟩ := exists_bound_of_compact h hbound
    rw [compact, List.length_cons, List.length_append] at hbound
    obtain ⟨s, hs⟩ := exists_tail_of_compactMembers (k, v) members
    have hmembers := readMembers_compact ((k, v) :: members) b rest (List.cons_ne_nil _ _) h.2
      (by omega)
    have hput : Entries.putAll [] ((k, v) :: members) = (k, v) :: members :=
      Entries.putAll_of_nodup h.1
    rw [hs, List.cons_append] at hmembers
    simp [compact, hs, readValue, isSpace, hmembers, hput]

theorem readItems_compact : ∀ (items : List Value) (bound : Nat) (rest : List Char), items ≠ [] →
    EveryItem List.Nodup ReadsBack items → 2 * (compactItems items).length + 1 ≤ bound →
      readItems bound (compactItems items ++ ']' :: rest) = some (items, rest)
  | [v], b + 1, rest, _, h, hbound => by
    have hv : readValue b (v.compact ++ ']' :: rest) = some (v, ']' :: rest) :=
      readValue_compact v b _ h.1 (by simpa [compactItems] using hbound)
        (terminated_cons.2 (by decide))
    simp [readItems, compactItems, hv, isSpace]
  | v :: w :: items, b + 1, rest, _, h, hbound => by
    rw [compactItems, List.length_append, List.length_cons] at hbound
    have hv := readValue_compact v b (',' :: (compactItems (w :: items) ++ ']' :: rest)) h.1
      (by omega) (terminated_cons.2 (by decide))
    have hitems := readItems_compact (w :: items) b rest (List.cons_ne_nil _ _) h.2 (by omega)
    simp [readItems, compactItems, hv, hitems, isSpace]

theorem readMembers_compact : ∀ (members : List (String × Value)) (bound : Nat) (rest : List Char),
    members ≠ [] → EveryMember List.Nodup ReadsBack members →
      2 * (compactMembers members).length + 1 ≤ bound →
      readMembers bound (compactMembers members ++ '}' :: rest) = some (members, rest)
  | [(k, v)], b + 1, rest, _, h, hbound => by
    rw [compactMembers, List.length_append, List.length_cons] at hbound
    have hv : readValue b (v.compact ++ '}' :: rest) = some (v, '}' :: rest) :=
      readValue_compact v b _ h.1 (by omega) (terminated_cons.2 (by decide))
    simp [readMembers, compactMembers, quote, readString_flatMap_escape, hv, isSpace]
  | (k, v) :: m :: members, b + 1, rest, _, h, hbound => by
    rw [compactMembers, List.length_append, List.length_cons, List.length_append,
      List.length_cons] at hbound
    have hv := readValue_compact v b (',' :: (compactMembers (m :: members) ++ '}' :: rest)) h.1
      (by omega) (terminated_cons.2 (by decide))
    have hmembers := readMembers_compact (m :: members) b rest (List.cons_ne_nil _ _) h.2 (by omega)
    simp [readMembers, compactMembers, quote, readString_flatMap_escape, hv, hmembers, isSpace]

end

/-- A readable value is read back from its compact text. -/
theorem parse?_compact {v : Value} (h : v.Readable) : parse? (String.ofList v.compact) = some v := by
  have hread := readValue_compact v (2 * v.compact.length + 2) [] h (Nat.le_add_right _ 2)
    terminated_nil
  rw [List.append_nil] at hread
  simp [parse?, hread]

end Value
end LayeredConfig
