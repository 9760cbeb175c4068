import LayeredConfig.Proofs.Document.Alike
import LayeredConfig.Proofs.Document.Flat
import LayeredConfig.Proofs.Redaction.Names
import LayeredConfig.Proofs.Text.Pieces

/-!
# What redaction masks

Redaction looks at the key of a property and at nothing inside its value.  So a scalar is masked, on its
own or with the value around it, exactly where the key is secret.  The name that a reader sees in front of
the scalar may be another one: a member of an object stands between, or the key ends in the index of a
list.

* `SecretsMasked` — every scalar behind a secret name is masked; it fails for members of objects and for
  the elements of a list under their own keys.
* `masked_iff` — a value is masked exactly if its key is secret.
* `secret_masked_iff` — where the key is secret, and where that is enough.
-/

namespace LayeredConfig.Redaction

open Key (Segment)

variable {p : Properties} {key : String} {path front rest : List Segment} {v w : Value}

/-- The value that stands for a secret. -/
def maskValue : Value := .string (String.ofList mask)

/-- What properties hold under a key, at a path into the value. -/
def valueAt? (p : Properties) (key : String) (path : List Segment) : Option Value :=
  (p.get? key).bind fun v => v.atPath? path

/-- What has been at a place is masked: the mask stands there, or instead of a value around it. -/
def Masked (p : Properties) (key : String) (path : List Segment) : Prop :=
  ∃ front, front <+: path ∧ valueAt? p key front = some maskValue

/-- The innermost name of a place: the last name on the path, or else the last dotted name of the key. -/
inductive InnermostName (key : List Char) : List Segment → List Char → Prop
  | member (path : List Segment) (name : String) (indices : List Nat) :
      InnermostName key (path ++ .name name :: indices.map Segment.index) name.toList
  | dotted {name : List Char} (h : DottedName key name) (indices : List Nat) :
      InnermostName key (indices.map Segment.index) name

/-- The innermost name of a place is secret. -/
def SecretPlace (key : String) (path : List Segment) : Prop :=
  ∃ name, InnermostName key.toList path name ∧ NamesSecret name

/-- Every secret scalar of some properties is masked in their copy. -/
def SecretsMasked (p : Properties) : Prop :=
  ∀ key path w, valueAt? p key path = some w → w.IsScalar → w ≠ .null → SecretPlace key path →
    Masked (properties p) key path

/-! ## Texts -/

/-- No text turns into the mask but the mask itself: what is written for a match holds other characters. -/
theorem replaceMatches_eq_mask {α : Type} {pattern : Text.Pattern α} {written : α → List Char} {s : List Char}
    (hwritten : ∀ a, ∃ c ∈ written a, c ∉ mask) (h : Text.replaceMatches pattern written s = mask) : s = mask := by
  rcases Text.replaceMatches_eq_self_or pattern written s with heq | ⟨a, ha⟩
  · rwa [heq] at h
  · obtain ⟨c, hc, hother⟩ := hwritten a
    exact absurd (h ▸ ha c hc) hother

theorem text_eq_mask_iff {s : List Char} : text s = mask ↔ s = mask := by
  constructor
  · intro h
    have htokens : hidePasswords s = mask :=
      replaceMatches_eq_mask (fun _ => ⟨'[', by decide, by decide⟩) h
    exact replaceMatches_eq_mask (fun _ => ⟨':', List.mem_cons_self, by decide⟩) htokens
  · rintro rfl
    rfl

/-! ## Values -/

theorem value_of_isSensitive (hkey : isSensitive key = true) (hv : v ≠ .null) : value key v = maskValue := by
  cases v with
  | null => exact absurd rfl hv
  | bool | number | string | array | object => simp [value, hkey, maskValue]

/-- Under other keys a text is searched, and every other value stays as it is. -/
theorem value_of_not_isSensitive (hkey : ¬ isSensitive key = true) :
    value key v = v ∨ ∃ s, v = .string s ∧ value key v = .string (String.ofList (text s.toList)) := by
  cases v with
  | string s => exact .inr ⟨s, rfl, by simp [value, hkey]⟩
  | null | bool | number | array | object => exact .inl (by simp [value, hkey])

theorem atPath?_of_isScalar (hv : v.IsScalar) (h : v.atPath? path = some w) : path = [] ∧ w = v := by
  cases path with
  | nil => exact ⟨rfl, (Option.some.inj h).symm⟩
  | cons g path =>
      cases g with
      | name k =>
          cases v with
          | object => exact hv.elim
          | null | bool | number | string | array => simp [Value.atPath?] at h
      | index i =>
          cases v with
          | array => exact hv.elim
          | null | bool | number | string | object => simp [Value.atPath?] at h

/-- Under a key that is not secret only the mask itself is found as a mask. -/
theorem atPath?_value_eq_maskValue_iff (hkey : ¬ isSensitive key = true)
    (h : v.atPath? (front ++ rest) = some w) :
    (value key v).atPath? front = some maskValue ↔ rest = [] ∧ w = maskValue := by
  rcases value_of_not_isSensitive (v := v) hkey with hvalue | ⟨s, rfl, hvalue⟩
  · rw [hvalue]
    rw [Value.atPath?_append] at h
    constructor
    -- nothing is found inside a mask, so it stands at the end of the path
    · intro hfront
      rw [hfront] at h
      exact atPath?_of_isScalar (v := maskValue) trivial h
    · rintro ⟨rfl, rfl⟩
      obtain ⟨c, hc, hw⟩ := Option.bind_eq_some_iff.1 h
      rwa [← Option.some.inj hw]
  · -- a text is a whole value, and scrubbing it does not make it the mask
    obtain ⟨hpath, rfl⟩ := atPath?_of_isScalar (v := .string s) trivial h
    obtain ⟨rfl, rfl⟩ := List.append_eq_nil_iff.1 hpath
    rw [hvalue, Value.atPath?, maskValue, Option.some.injEq, Value.string.injEq, String.ofList_inj,
      text_eq_mask_iff, Value.string.injEq, ← String.toList_inj, String.toList_ofList]
    simp

/-! ## Properties -/

theorem valueAt?_properties (p : Properties) (key : String) (path : List Segment) :
    valueAt? (properties p) key path = (p.get? key).bind fun v => (value key v).atPath? path := by
  rw [valueAt?, properties, OrderedMap.get?_mapValues, Option.bind_map]
  rfl

/-- A value other than null is masked exactly if its key is secret, or if it is the mask already. -/
theorem masked_iff (hw : valueAt? p key path = some w) (hnull : w ≠ .null) :
    Masked (properties p) key path ↔ isSensitive key = true ∨ w = maskValue := by
  obtain ⟨v, hv, hpath⟩ := Option.bind_eq_some_iff.1 hw
  by_cases hkey : isSensitive key = true
  · -- the whole value is masked, unless it is null, which holds nothing
    refine iff_of_true ⟨[], List.nil_prefix, ?_⟩ (.inl hkey)
    have hne : v ≠ .null := by
      rintro rfl
      exact hnull (atPath?_of_isScalar (v := .null) trivial hpath).2
    rw [valueAt?_properties, hv, Option.bind_some, value_of_isSensitive hkey hne]
    rfl
  · rw [or_iff_right hkey]
    constructor
    · rintro ⟨front, ⟨rest, rfl⟩, hfront⟩
      rw [valueAt?_properties, hv, Option.bind_some] at hfront
      exact ((atPath?_value_eq_maskValue_iff hkey hpath).1 hfront).2
    · intro hmask
      refine ⟨path, List.prefix_refl path, ?_⟩
      rw [valueAt?_properties, hv, Option.bind_some]
      rw [← List.append_nil path] at hpath
      exact (atPath?_value_eq_maskValue_iff hkey hpath).2 ⟨rfl, hmask⟩

/-- A secret place without names on the path has its name from the key. -/
theorem SecretPlace.endsSecret (h : SecretPlace key path) (hpath : ∀ name, Segment.name name ∉ path)
    (hbare : ¬ EndsInIndex key.toList) : EndsSecret key.toList := by
  obtain ⟨name, hname, hsecret⟩ := h
  cases hname with
  | member front member indices => exact absurd (by simp) (hpath member)
  | dotted hdotted indices => exact endsSecret_of_dottedName hdotted hsecret hbare

/-- Where values are masked.  A value other than null, a scalar or not, is masked if its key ends in a secret
word, closing brackets aside, and otherwise only if it is the mask already.  That covers the secret places
which have their name from a key without an index behind it.  Behind an index nothing is masked. -/
theorem secret_masked_iff (hw : valueAt? p key path = some w) (hnull : w ≠ .null) :
    (Masked (properties p) key path ↔ EndsSecret key.toList ∨ w = maskValue) ∧
    (SecretPlace key path → (∀ name, Segment.name name ∉ path) → ¬ EndsInIndex key.toList →
      Masked (properties p) key path) ∧
    (EndsInIndex key.toList → (Masked (properties p) key path ↔ w = maskValue)) := by
  rw [masked_iff hw hnull]
  refine ⟨or_congr_left isSensitive_iff, ?_, ?_⟩
  · intro hplace hpath hbare
    exact .inl (isSensitive_iff.2 (hplace.endsSecret hpath hbare))
  · intro hindex
    exact or_iff_right (not_isSensitive_of_endsInIndex hindex)

/-- A list of secrets in one value. -/
def apiKeys : Properties := .ofList [("client.api-key", .array [.string "k1", .string "k2"])]

theorem secret_masked_iff_apiKeys :
    valueAt? apiKeys "client.api-key" [.index 1] = some (.string "k2") ∧
      SecretPlace "client.api-key" [.index 1] ∧
      Masked (properties apiKeys) "client.api-key" [.index 1] := by
  have hvalue : valueAt? apiKeys "client.api-key" [.index 1] = some (.string "k2") := by cbv
  have hbare : ¬ EndsInIndex "client.api-key".toList := not_endsInIndex_of_getLast? (by decide)
  have hdotted : DottedName ("client.".toList ++ "api-key".toList) "api-key".toList :=
    .last (.inr (by decide)) (by decide) (not_endsInIndex_of_getLast? (by decide))
  have hplace : SecretPlace "client.api-key" [.index 1] :=
    ⟨_, .dotted hdotted [1], "api-key", by decide, by decide⟩
  obtain ⟨-, hpromised, -⟩ := secret_masked_iff hvalue (by simp)
  exact ⟨hvalue, hplace, hpromised hplace (by simp) hbare⟩

/-- A list of secrets under a key for each element. -/
def flatPasswords : Properties := .ofList [("db.password[0]", .string "s3cret")]

/-- A secret as a member of an object. -/
def nestedPassword : Properties := .ofList [("db", .object [("password", .string "s3cret")])]

/-- Secrets stay readable where the key does not end in their name. -/
theorem not_secretsMasked : ¬ SecretsMasked flatPasswords ∧ ¬ SecretsMasked nestedPassword := by
  have hsecret : NamesSecret "password".toList := ⟨"password", by decide, by decide⟩
  constructor
  · intro h
    have hvalue : valueAt? flatPasswords "db.password[0]" [] = some (.string "s3cret") := by cbv
    have hdotted : DottedName ("db.".toList ++ "password".toList) "password".toList :=
      .last (.inr (by decide)) (by decide) (not_endsInIndex_of_getLast? (by decide))
    have hindexed : DottedName ("db.password".toList ++ '[' :: (['0'] ++ [']'])) "password".toList :=
      .index hdotted (by simp) (by simp [Text.isDigit])
    have hplace : SecretPlace "db.password[0]" [] := ⟨_, .dotted hindexed [], hsecret⟩
    have hmasked := h _ _ _ hvalue trivial (by simp) hplace
    rw [masked_iff hvalue (by simp)] at hmasked
    revert hmasked
    decide
  · intro h
    have hvalue : valueAt? nestedPassword "db" [.name "password"] = some (.string "s3cret") := by cbv
    have hplace : SecretPlace "db" [.name "password"] := ⟨_, .member [] "password" [], hsecret⟩
    have hmasked := h _ _ _ hvalue trivial (by simp) hplace
    rw [masked_iff hvalue (by simp)] at hmasked
    revert hmasked
    decide

end LayeredConfig.Redaction
