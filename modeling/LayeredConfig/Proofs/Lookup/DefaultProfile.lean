import LayeredConfig.Proofs.Lookup.Expansion

/-!
# The default profile of incomplete repositories

An incomplete repository has no properties without a profile, and its default profile stands in for them:
it is tried behind all the profiles that are asked for.  Whether it has to be put in front of them is told
from the first letters of the text, though, and not from its first name.  A longer name that starts with
the same letters passes for the default profile, which is then left out.

* `behindDefault` — the profiles of a request with the default profile in front.
* `OutgrowsDefault` — the texts that are taken to start with the default profile and do not.
* `profiles_eq_reverse` — the profiles of every repository.
* `profiles_eq_reverse_behindDefault_iff` — when the default profile has its place.
-/

namespace LayeredConfig

variable {text : String}

/-- The profiles of a request behind the default profile. -/
def behindDefault (text : String) : List String :=
  firstOccurrences (defaultProfile :: requestedProfiles text)

/-- The text starts with the name of the default profile, and the name goes on behind it. -/
def OutgrowsDefault (text : String) : Prop :=
  ∃ more, defaultProfile.toList ++ more <+: text.toList ∧ ',' ∉ more ∧ ∃ c ∈ more, Text.isBlank c = false

/-! ## Profiles that are asked for -/

theorem requestedProfiles_eq (text : String) :
    requestedProfiles text =
      firstOccurrences (if commaWords text = [] then [defaultProfile] else commaWords text) := by
  rw [requestedProfiles]
  cases hwords : commaWords text with
  | nil => rfl
  | cons name rest => simp [firstOccurrences]

theorem behindDefault_eq (text : String) :
    behindDefault text = firstOccurrences (defaultProfile :: commaWords text) := by
  rw [behindDefault, requestedProfiles_eq, firstOccurrences_cons_firstOccurrences]
  split
  · next h =>
      rw [h]
      exact firstOccurrences_cons_of_head? rfl
  · rfl

theorem head?_behindDefault (text : String) : (behindDefault text).head? = some defaultProfile := by
  rw [behindDefault, head?_firstOccurrences, List.head?_cons]

theorem behindDefault_of_head? (h : (requestedProfiles text).head? = some defaultProfile) :
    behindDefault text = requestedProfiles text := by
  rw [behindDefault, firstOccurrences_cons_of_head? h, requestedProfiles_eq,
    firstOccurrences_of_nodup (nodup_firstOccurrences _)]

/-! ## Names that start like the default profile -/

theorem head?_commaWords_of_starts {more : List Char} (h : text.toList = defaultProfile.toList ++ more) :
    (commaWords text).head? =
      some (String.ofList (defaultProfile.toList ++ Text.trimEnd (more.takeWhile (· ≠ ',')))) := by
  have hfirst := Text.head?_fields ',' text.toList
  rw [h, List.takeWhile_append_of_pos (by simp [defaultProfile])] at hfirst
  obtain ⟨rest, hrest⟩ := List.head?_eq_some_iff.1 hfirst
  have htrim : Text.trim (defaultProfile.toList ++ more.takeWhile (· ≠ ',')) =
      defaultProfile.toList ++ Text.trimEnd (more.takeWhile (· ≠ ',')) :=
    Text.trim_append (by decide) (by decide) _
  have hne : defaultProfile.toList ++ Text.trimEnd (more.takeWhile (· ≠ ',')) ≠ [] :=
    List.append_ne_nil_of_left_ne_nil (by decide) _
  rw [commaWords, h, hrest, List.map_cons, htrim, List.filter_cons_of_pos (by simpa using hne),
    List.map_cons, List.head?_cons]

theorem head?_requestedProfiles {more : List Char} (h : text.toList = defaultProfile.toList ++ more) :
    (requestedProfiles text).head? =
      some (String.ofList (defaultProfile.toList ++ Text.trimEnd (more.takeWhile (· ≠ ',')))) := by
  have hhead := head?_commaWords_of_starts h
  have hne : commaWords text ≠ [] := fun hnil => by simp [hnil] at hhead
  rw [requestedProfiles_eq, if_neg hne, head?_firstOccurrences, hhead]

theorem ofList_append_eq_iff {name : String} {s : List Char} :
    some (String.ofList (name.toList ++ s)) = some name ↔ s = [] := by
  rw [Option.some.injEq, ← String.toList_inj, String.toList_ofList, List.append_right_eq_self]

/-- A text outgrows the default profile if its first letters are the same and its first name is not. -/
theorem outgrowsDefault_iff :
    OutgrowsDefault text ↔
      defaultProfile.toList <+: text.toList ∧ (requestedProfiles text).head? ≠ some defaultProfile := by
  constructor
  · rintro ⟨more, ⟨rest, hrest⟩, hcomma, c, hc, hblank⟩
    rw [List.append_assoc] at hrest
    refine ⟨⟨_, hrest⟩, fun hhead => ?_⟩
    rw [head?_requestedProfiles hrest.symm, ofList_append_eq_iff, Text.trimEnd_eq_nil_iff] at hhead
    -- what goes on behind the name would have to be blank
    have hfirst : c ∈ (more ++ rest).takeWhile (· ≠ ',') := by
      rw [List.takeWhile_append_of_pos fun d hd => by simpa using ne_of_mem_of_not_mem hd hcomma]
      exact List.mem_append_left _ hc
    rw [hhead c hfirst] at hblank
    contradiction
  · rintro ⟨⟨rest, hrest⟩, hhead⟩
    rw [head?_requestedProfiles hrest.symm, Ne, ofList_append_eq_iff, Text.trimEnd_eq_nil_iff] at hhead
    push Not at hhead
    obtain ⟨c, hc, hblank⟩ := hhead
    refine ⟨rest.takeWhile (· ≠ ','), ?_, fun hcomma => ?_, c, hc, by simpa using hblank⟩
    · rw [← hrest, List.prefix_append_right_inj]
      exact List.takeWhile_prefix _
    · simpa using List.mem_takeWhile_imp hcomma

instance : DecidablePred OutgrowsDefault := fun text =>
  decidable_of_iff (defaultProfile.toList <+: text.toList ∧
    (requestedProfiles text).head? ≠ some defaultProfile) outgrowsDefault_iff.symm

/-! ## Profiles that are tried -/

namespace Expander

variable {expander : Expander}

/-- A blank text is read as the name of the default profile, so that nothing is put in front of it. -/
theorem profileWords_of_isBlankText (h : isBlankText text = true) :
    expander.profileWords text = [defaultProfile] := by
  have htext : profileText text = defaultProfile := if_pos h
  have hprepends : expander.prepends defaultProfile = false := by
    rw [prepends, List.isPrefixOf_iff_prefix.2 List.prefix_rfl, Bool.not_true, Bool.and_false]
  rw [profileWords, htext, hprepends, commaWords_defaultProfile]
  rfl

theorem requestedProfiles_of_isBlankText (h : isBlankText text = true) :
    requestedProfiles text = [defaultProfile] := by
  rw [requestedProfiles_eq, commaWords_of_isBlankText h]
  rfl

/-- The default profile is put in front of a text that does not start with its letters. -/
theorem profiles_of_not_starts (hincomplete : expander.configIncomplete = true)
    (hstarts : ¬ defaultProfile.toList <+: text.toList) :
    expander.profiles text = (behindDefault text).reverse := by
  rw [profiles_eq]
  by_cases hblank : isBlankText text = true
  · have hrequested := requestedProfiles_of_isBlankText hblank
    rw [profileWords_of_isBlankText hblank, if_neg (List.cons_ne_nil _ _),
      behindDefault_of_head? (by rw [hrequested, List.head?_cons]), hrequested]
    rfl
  · have htext : profileText text = text := if_neg hblank
    have hprepends : expander.prepends text = true := by
      rw [prepends, hincomplete, Bool.true_and, Bool.not_eq_true', ← Bool.not_eq_true,
        List.isPrefixOf_iff_prefix]
      exact hstarts
    rw [profileWords, htext, if_pos hprepends, if_neg (List.cons_ne_nil _ _), behindDefault_eq]

/-- Nothing is put in front of a text that starts with the letters of the default profile, whatever its first
name is, nor in front of any text for a complete repository. -/
theorem profiles_of_starts
    (h : expander.configIncomplete = false ∨ defaultProfile.toList <+: text.toList) :
    expander.profiles text = (requestedProfiles text).reverse := by
  rw [profiles_eq]
  by_cases hblank : isBlankText text = true
  · rw [profileWords_of_isBlankText hblank, if_neg (List.cons_ne_nil _ _),
      requestedProfiles_of_isBlankText hblank]
    rfl
  · have htext : profileText text = text := if_neg hblank
    have hprepends : expander.prepends text = false := by
      rcases h with hcomplete | hstarts
      · rw [prepends, hcomplete, Bool.false_and]
      · rw [prepends, List.isPrefixOf_iff_prefix.2 hstarts, Bool.not_true, Bool.and_false]
    rw [profileWords, htext, hprepends, requestedProfiles_eq, if_neg Bool.false_ne_true]
    split
    · rfl
    · rfl

/-- The default profile is tried behind the profiles that are asked for, unless the text outgrows it. -/
theorem profiles_eq_reverse (expander : Expander) (text : String) :
    expander.profiles text =
      (if expander.configIncomplete = true ∧ ¬ OutgrowsDefault text then behindDefault text
        else requestedProfiles text).reverse := by
  by_cases hnothing : expander.configIncomplete = false ∨ defaultProfile.toList <+: text.toList
  · rw [profiles_of_starts hnothing]
    split
    · next h =>
        -- the letters that the text starts with are the name of its first profile
        obtain ⟨hincomplete, hkept⟩ := h
        have hstarts := hnothing.resolve_left (by simp [hincomplete])
        have hhead : (requestedProfiles text).head? = some defaultProfile :=
          not_not.1 fun hne => hkept (outgrowsDefault_iff.2 ⟨hstarts, hne⟩)
        rw [behindDefault_of_head? hhead]
    · rfl
  · rw [not_or, Bool.not_eq_false] at hnothing
    obtain ⟨hincomplete, hstarts⟩ := hnothing
    rw [profiles_of_not_starts hincomplete hstarts,
      if_pos ⟨hincomplete, fun houtgrows => hstarts (outgrowsDefault_iff.1 houtgrows).1⟩]

/-- The default profile is tried behind all others by an incomplete repository, exactly where the text does not
outgrow its name.  Where it does, only the profiles that are asked for are tried, as in a complete one. -/
theorem profiles_eq_reverse_behindDefault_iff (expander : Expander) (text : String) :
    (expander.profiles text =
        (if expander.configIncomplete then behindDefault text else requestedProfiles text).reverse ↔
      ¬ (expander.configIncomplete = true ∧ OutgrowsDefault text)) ∧
    expander.profiles text =
      (if expander.configIncomplete = true ∧ ¬ OutgrowsDefault text then behindDefault text
        else requestedProfiles text).reverse := by
  refine ⟨?_, profiles_eq_reverse expander text⟩
  rw [profiles_eq_reverse, List.reverse_inj]
  cases expander.configIncomplete with
  | false => simp
  | true =>
      by_cases houtgrows : OutgrowsDefault text
      · -- the first profile that is asked for is another one
        have hhead := (outgrowsDefault_iff.1 houtgrows).2
        have hne : requestedProfiles text ≠ behindDefault text := by
          intro heq
          exact hhead (by rw [heq, head?_behindDefault])
        simp [houtgrows, hne]
      · simp [houtgrows]

/-- A profile with a longer name takes the place of the default profile. -/
theorem not_behind_default :
    ¬ ∀ (expander : Expander) (text : String), expander.configIncomplete = true →
      expander.profiles text = (behindDefault text).reverse := by
  intro h
  exact absurd (h { configIncomplete := true } "defaults,prod" rfl) (by decide)

end Expander

end LayeredConfig
