import LayeredConfig.Lookup
import LayeredConfig.Proofs.Text.Fields
import LayeredConfig.Proofs.Words
import Mathlib.Data.Prod.Lex

/-!
# The candidates of a request

Expanding a request gives three lists of candidates without repetitions, in which the words of the
request stand in the opposite order.  The lookups they make up are then all different, and sorted by
label, profile and application.

* `Candidates` — what each of the three lists is.
* `candidates_applications`, `candidates_profiles`, `candidates_labels` — each list for itself.
* `mem_lookups_iff`, `pairwise_place` — the lookups of three lists.
* `expand_spec` — what an expansion gives.
-/

namespace LayeredConfig

/-- Words to be tried one after another: at least one, and none twice. -/
structure Candidates (words : List String) : Prop where
  ne_nil : words ≠ []
  nodup : words.Nodup
  isWord : ∀ s ∈ words, IsWord s

/-- Candidates made from the words of a request: all of them, the later ones first. -/
structure Reverses (requested words : List String) : Prop where
  subset : requested ⊆ words
  reversed : ∀ a b, Precedes requested a b → Precedes words b a

variable {words : List String} {text : String}

theorem candidates_reverse_firstOccurrences (hne : words ≠ []) (hword : ∀ s ∈ words, IsWord s) :
    Candidates (firstOccurrences words).reverse where
  ne_nil h := by
    obtain ⟨s, rest, rfl⟩ := List.exists_cons_of_ne_nil hne
    rw [firstOccurrences] at h
    simp at h
  nodup := List.nodup_reverse.2 (nodup_firstOccurrences words)
  isWord s hs := hword s (by simpa using hs)

theorem reverses_reverse_firstOccurrences (words : List String) :
    Reverses words (firstOccurrences words).reverse where
  subset s hs := by simpa using hs
  reversed _ _ h := h.reverse_firstOccurrences

theorem nodup_of_length_le_one (h : words.length ≤ 1) : words.Nodup := by
  match words, h with
  | [], _ => exact List.nodup_nil
  | [s], _ => exact List.nodup_singleton s

/-- The words of a list of one word at most have no order. -/
theorem Precedes.one_lt_length {a b : String} (h : Precedes words a b) : 1 < words.length := by
  have := List.idxOf_lt_length_of_mem h.2.1
  have := h.2.2
  omega

namespace Expander

variable {expander : Expander} {application profile label : String} {keys : LookupKeys}

theorem isWord_sharedApplication : IsWord sharedApplication := by decide

theorem isWord_defaultProfile : IsWord defaultProfile := by decide

/-! ## Applications -/

theorem applications_eq_ok_iff :
    applications application = .ok words ↔ commaWords application ≠ [] ∧
      words = (firstOccurrences
        (if sharedApplication ∈ commaWords application then commaWords application
          else sharedApplication :: commaWords application)).reverse := by
  rw [applications]
  split
  · next h => simp [h]
  · next h =>
      simp only [List.contains_iff_mem, Except.ok.injEq]
      exact ⟨fun heq => ⟨h, heq.symm⟩, fun heq => heq.2.symm⟩

theorem eq_or_mem_of_mem_applications {s : String} (h : applications application = .ok words)
    (hs : s ∈ words) : s = sharedApplication ∨ s ∈ commaWords application := by
  obtain ⟨-, rfl⟩ := applications_eq_ok_iff.1 h
  rw [List.mem_reverse, mem_firstOccurrences] at hs
  split at hs
  · exact .inr hs
  · exact List.mem_cons.1 hs

theorem candidates_applications (h : applications application = .ok words) : Candidates words := by
  obtain ⟨hne, rfl⟩ := applications_eq_ok_iff.1 h
  refine candidates_reverse_firstOccurrences ?_ fun s hs => ?_
  · split
    · exact hne
    · simp
  · rcases eq_or_mem_of_mem_applications h (by simpa using hs) with rfl | hs
    · exact isWord_sharedApplication
    · exact isWord_of_mem_commaWords hs

theorem sharedApplication_mem (h : applications application = .ok words) :
    sharedApplication ∈ words := by
  obtain ⟨-, rfl⟩ := applications_eq_ok_iff.1 h
  rw [List.mem_reverse, mem_firstOccurrences]
  split
  · assumption
  · exact List.mem_cons_self

theorem reverses_applications (h : applications application = .ok words) :
    Reverses (commaWords application) words := by
  obtain ⟨-, rfl⟩ := applications_eq_ok_iff.1 h
  by_cases hshared : sharedApplication ∈ commaWords application
  · rw [if_pos hshared]
    exact reverses_reverse_firstOccurrences _
  · rw [if_neg hshared]
    have hreverses := reverses_reverse_firstOccurrences (sharedApplication :: commaWords application)
    refine ⟨fun s hs => hreverses.subset (List.mem_cons_of_mem _ hs), fun a b hab => ?_⟩
    have ha : a ≠ sharedApplication := ne_of_mem_of_not_mem hab.1 hshared
    have hb : b ≠ sharedApplication := ne_of_mem_of_not_mem hab.2.1 hshared
    exact hreverses.reversed a b (hab.cons ha hb)

/-- The shared application is tried last, unless the request names it. -/
theorem getLast?_applications (h : applications application = .ok words)
    (hshared : sharedApplication ∉ commaWords application) :
    words.getLast? = some sharedApplication := by
  obtain ⟨-, rfl⟩ := applications_eq_ok_iff.1 h
  rw [if_neg hshared, firstOccurrences, List.getLast?_reverse, List.head?_cons]

/-! ## Profiles -/

/-- The text of the profiles, or the name of the default profile where it is blank. -/
def profileText (profile : String) : String := if isBlankText profile then defaultProfile else profile

/-- Whether the default profile is put in front of the profiles of a text. -/
def prepends (expander : Expander) (text : String) : Bool :=
  expander.configIncomplete && !defaultProfile.toList.isPrefixOf text.toList

/-- The words that the profiles of a repository are made from. -/
def profileWords (expander : Expander) (profile : String) : List String :=
  if expander.prepends (profileText profile) then defaultProfile :: commaWords (profileText profile)
  else commaWords (profileText profile)

theorem commaWords_defaultProfile : commaWords defaultProfile = [defaultProfile] := by decide

theorem profiles_eq (expander : Expander) (profile : String) :
    expander.profiles profile =
      if expander.profileWords profile = [] then [defaultProfile]
      else (firstOccurrences (expander.profileWords profile)).reverse := by
  have hwords : commaWords
      (if expander.prepends (profileText profile) then defaultProfile ++ "," ++ profileText profile
        else profileText profile) = expander.profileWords profile := by
    rw [profileWords, apply_ite commaWords, commaWords_append_comma, commaWords_defaultProfile,
      List.singleton_append]
  simp only [profiles]
  rw [← profileText, ← prepends, hwords]
  cases expander.profileWords profile with
  | nil => rfl
  | cons s rest => simp [firstOccurrences]

theorem commaWords_of_isBlankText (h : isBlankText text = true) : commaWords text = [] := by
  refine List.eq_nil_iff_forall_not_mem.2 fun s hs => ?_
  have hblank := (isWord_of_mem_commaWords hs).not_blank
  have hall : isBlankText s = true := by
    rw [isBlankText, List.all_eq_true] at h ⊢
    exact fun c hc => h c ((infix_of_mem_commaWords hs).subset hc)
  rw [hall] at hblank
  contradiction

/-- The words of a request are those of its profiles, behind the default profile if that is put first. -/
theorem profileWords_cases (expander : Expander) (h : commaWords profile ≠ []) :
    expander.profileWords profile = commaWords profile ∨
      expander.configIncomplete = true ∧
        expander.profileWords profile = defaultProfile :: commaWords profile := by
  have htext : profileText profile = profile :=
    if_neg fun hblank => h (commaWords_of_isBlankText hblank)
  rw [profileWords, htext]
  by_cases hprepends : expander.prepends profile = true
  · exact .inr ⟨(Bool.and_eq_true_iff.1 hprepends).1, if_pos hprepends⟩
  · exact .inl (if_neg hprepends)

theorem eq_or_mem_of_mem_profileWords {s : String} (h : s ∈ expander.profileWords profile) :
    s = defaultProfile ∨ s ∈ commaWords profile := by
  by_cases hne : commaWords profile = []
  · -- without a word of the request only the default profile is left
    by_cases hblank : isBlankText profile = true
    · have htext : profileText profile = defaultProfile := if_pos hblank
      rw [profileWords, htext, commaWords_defaultProfile] at h
      left
      split at h <;> simpa using h
    · have htext : profileText profile = profile := if_neg hblank
      rw [profileWords, htext, hne] at h
      left
      split at h <;> simp at h
      exact h
  · rcases profileWords_cases expander hne with heq | ⟨-, heq⟩
    · exact .inr (heq ▸ h)
    · exact List.mem_cons.1 (heq ▸ h)

theorem eq_or_mem_of_mem_profiles {s : String} (h : s ∈ expander.profiles profile) :
    s = defaultProfile ∨ s ∈ commaWords profile := by
  rw [profiles_eq] at h
  split at h
  · exact .inl (List.mem_singleton.1 h)
  · exact eq_or_mem_of_mem_profileWords (by simpa using h)

theorem candidates_profiles (expander : Expander) (profile : String) :
    Candidates (expander.profiles profile) := by
  rw [profiles_eq]
  split
  · exact ⟨by simp, by simp, by simp [isWord_defaultProfile]⟩
  · next h =>
      refine candidates_reverse_firstOccurrences h fun s hs => ?_
      rcases eq_or_mem_of_mem_profileWords hs with rfl | hs
      · exact isWord_defaultProfile
      · exact isWord_of_mem_commaWords hs

theorem commaWords_subset_profiles (expander : Expander) (profile : String) :
    commaWords profile ⊆ expander.profiles profile := by
  intro s hs
  have hne : commaWords profile ≠ [] := List.ne_nil_of_mem hs
  have hmem : s ∈ expander.profileWords profile := by
    rcases profileWords_cases expander hne with h | ⟨-, h⟩ <;> simp [h, hs]
  rw [profiles_eq, if_neg (List.ne_nil_of_mem hmem)]
  simpa using hmem

/-- Profiles are tried in the opposite order; in an incomplete repository the default profile has a place
of its own. -/
theorem precedes_profiles {a b : String} (h : Precedes (commaWords profile) a b)
    (hdefault : expander.configIncomplete = true → a ≠ defaultProfile ∧ b ≠ defaultProfile) :
    Precedes (expander.profiles profile) b a := by
  have hwords : Precedes (expander.profileWords profile) a b := by
    rcases profileWords_cases expander (List.ne_nil_of_mem h.1) with heq | ⟨hinc, heq⟩
    · rwa [heq]
    · rw [heq]
      exact h.cons (hdefault hinc).1 (hdefault hinc).2
  rw [profiles_eq, if_neg (List.ne_nil_of_mem hwords.1)]
  exact hwords.reverse_firstOccurrences

/-! ## Labels -/

theorem candidates_splitLabels (h : splitLabels text ≠ []) : Candidates (splitLabels text) := by
  by_cases hcomma : text.toList.contains ',' = true
  · rw [splitLabels, if_pos hcomma] at h ⊢
    refine candidates_reverse_firstOccurrences (fun hnil => h ?_) fun s => isWord_of_mem_commaWords
    rw [hnil]
    rfl
  · rw [splitLabels, if_neg hcomma] at h ⊢
    have hlength := length_commaWords_le (by simpa using hcomma : ',' ∉ text.toList)
    exact ⟨h, nodup_of_length_le_one hlength, fun s => isWord_of_mem_commaWords⟩

theorem reverses_splitLabels (text : String) : Reverses (commaWords text) (splitLabels text) := by
  by_cases hcomma : text.toList.contains ',' = true
  · rw [splitLabels, if_pos hcomma]
    exact reverses_reverse_firstOccurrences _
  · rw [splitLabels, if_neg hcomma]
    have hlength := length_commaWords_le (by simpa using hcomma : ',' ∉ text.toList)
    refine ⟨List.Subset.refl _, fun a b hab => ?_⟩
    exact absurd hab.one_lt_length (Nat.not_lt.2 hlength)

theorem labels_eq_ok_iff :
    expander.labels label = .ok words ↔ words ≠ [] ∧
      words = if splitLabels label = [] then splitLabels expander.defaultLabel
        else splitLabels label := by
  rw [labels]
  cases hlabel : splitLabels label with
  | nil =>
      cases hdefault : splitLabels expander.defaultLabel with
      | nil => simp
      | cons s rest =>
          simp only [if_true, Except.ok.injEq]
          exact ⟨fun h => ⟨by simp [← h], h.symm⟩, fun h => h.2.symm⟩
  | cons s rest =>
      simp only [reduceCtorEq, if_false, Except.ok.injEq]
      exact ⟨fun h => ⟨by simp [← h], h.symm⟩, fun h => h.2.symm⟩

theorem mem_splitLabels_iff {s : String} : s ∈ splitLabels text ↔ s ∈ commaWords text := by
  rw [splitLabels]
  split <;> simp

theorem splitLabels_eq_nil_iff : splitLabels text = [] ↔ commaWords text = [] := by
  simp only [List.eq_nil_iff_forall_not_mem, mem_splitLabels_iff]

/-- Labels are refused only where neither the request nor the repository names one. -/
theorem labels_eq_error_iff {problem : Request.Problem} :
    expander.labels label = .error problem ↔
      problem = .noLabel ∧ commaWords label = [] ∧ commaWords expander.defaultLabel = [] := by
  rw [← splitLabels_eq_nil_iff, ← splitLabels_eq_nil_iff, labels]
  cases splitLabels label with
  | nil => cases splitLabels expander.defaultLabel <;> simp [eq_comm]
  | cons s rest => simp

theorem mem_or_mem_of_mem_labels {s : String} (h : expander.labels label = .ok words)
    (hs : s ∈ words) : s ∈ commaWords label ∨ s ∈ commaWords expander.defaultLabel := by
  obtain ⟨-, rfl⟩ := labels_eq_ok_iff.1 h
  split at hs
  · exact .inr (mem_splitLabels_iff.1 hs)
  · exact .inl (mem_splitLabels_iff.1 hs)

theorem candidates_labels (h : expander.labels label = .ok words) : Candidates words := by
  obtain ⟨hne, rfl⟩ := labels_eq_ok_iff.1 h
  split at hne
  · next heq => rw [if_pos heq]; exact candidates_splitLabels hne
  · next heq => rw [if_neg heq]; exact candidates_splitLabels hne

/-- The words that are asked for are the labels of the repository when the request has none. -/
theorem reverses_labels (h : expander.labels label = .ok words) :
    Reverses (if commaWords label = [] then commaWords expander.defaultLabel else commaWords label)
      words := by
  obtain ⟨-, rfl⟩ := labels_eq_ok_iff.1 h
  simp only [splitLabels_eq_nil_iff]
  split
  · exact reverses_splitLabels expander.defaultLabel
  · exact reverses_splitLabels label

theorem expand_eq_ok_iff :
    expander.expand application profile label = .ok keys ↔
      applications application = .ok keys.applications ∧ expander.labels label = .ok keys.labels ∧
        keys.profiles = expander.profiles profile ∧
          keys.profilelessFallback = !expander.configIncomplete := by
  rw [expand]
  cases applications application with
  | error problem => simp [bind, Except.bind]
  | ok names =>
      cases expander.labels label with
      | error problem => simp [bind, Except.bind]
      | ok labels =>
          obtain ⟨applications, profiles, labels', fallback⟩ := keys
          simp only [bind, Except.bind, pure, Except.pure, Except.ok.injEq, LookupKeys.mk.injEq]
          grind

/-- A request is refused if it names no application, or else for lack of a label. -/
theorem expand_eq_error_iff {problem : Request.Problem} :
    expander.expand application profile label = .error problem ↔
      problem = .blankApplication ∧ commaWords application = [] ∨
        problem = .noLabel ∧ commaWords application ≠ [] ∧ commaWords label = [] ∧
          commaWords expander.defaultLabel = [] := by
  rw [expand, applications]
  cases commaWords application with
  | nil => simp [bind, Except.bind, eq_comm]
  | cons name names =>
      cases hlabels : expander.labels label with
      | error refused =>
          obtain ⟨rfl, hnone⟩ := labels_eq_error_iff.1 hlabels
          simp [bind, Except.bind, hnone, eq_comm]
      | ok words =>
          have hsome : ¬ (commaWords label = [] ∧ commaWords expander.defaultLabel = []) := by
            intro hnone
            have hrefused : expander.labels label = .error .noLabel := labels_eq_error_iff.2 ⟨rfl, hnone⟩
            rw [hlabels] at hrefused
            contradiction
          simp only [bind, Except.bind, pure, Except.pure, reduceCtorEq, false_iff]
          grind

end Expander

/-! ## Lookups -/

namespace LookupKeys

variable {keys : LookupKeys}

/-- Where a profile stands; no profile stands behind them all. -/
def profilePlace (keys : LookupKeys) : Option String → Nat
  | some profile => keys.profiles.idxOf profile
  | none => keys.profiles.length

/-- Where a lookup stands: by its label, then by its profile, then by its application. -/
def place (keys : LookupKeys) (lookup : Lookup) : Nat ×ₗ Nat ×ₗ Nat :=
  toLex (keys.labels.idxOf lookup.label, toLex (keys.profilePlace lookup.profile,
    keys.applications.idxOf lookup.application))

theorem mem_profileChoices_iff {profile : Option String} :
    profile ∈ keys.profileChoices ↔
      (∃ p ∈ keys.profiles, profile = some p) ∨ profile = none ∧ keys.profilelessFallback = true := by
  rw [profileChoices, List.mem_append, List.mem_map]
  refine or_congr (exists_congr fun p => and_congr_right fun _ => eq_comm) ?_
  split
  · next h => simp [h]
  · next h => simp [h]

theorem mem_lookups_iff {lookup : Lookup} :
    lookup ∈ keys.lookups ↔ lookup.label ∈ keys.labels ∧ lookup.profile ∈ keys.profileChoices ∧
      lookup.application ∈ keys.applications := by
  simp only [lookups, List.mem_flatMap, List.mem_map]
  constructor
  · rintro ⟨label, hlabel, profile, hprofile, application, happlication, rfl⟩
    exact ⟨hlabel, hprofile, happlication⟩
  · rintro ⟨hlabel, hprofile, happlication⟩
    exact ⟨_, hlabel, _, hprofile, _, happlication, rfl⟩

theorem pairwise_profilePlace (h : keys.profiles.Nodup) :
    keys.profileChoices.Pairwise fun p q => keys.profilePlace p < keys.profilePlace q := by
  rw [profileChoices, List.pairwise_append]
  refine ⟨List.pairwise_map.2 (inOrderOf_self h), ?_, ?_⟩
  · split <;> simp
  · intro p hp q hq
    obtain ⟨profile, hprofile, rfl⟩ := List.mem_map.1 hp
    obtain rfl : q = none := by
      split at hq <;> simp at hq
      exact hq
    exact List.idxOf_lt_length_of_mem hprofile

/-- The lookups are sorted by label, profile and application. -/
theorem pairwise_place (hlabels : keys.labels.Nodup) (hprofiles : keys.profiles.Nodup)
    (happlications : keys.applications.Nodup) :
    keys.lookups.Pairwise fun a b => keys.place a < keys.place b := by
  refine List.pairwise_flatMap.2 ⟨fun label _ => List.pairwise_flatMap.2 ⟨fun profile _ => ?_, ?_⟩, ?_⟩
  · refine List.pairwise_map.2 ((inOrderOf_self happlications).imp fun hlt => ?_)
    exact Prod.Lex.toLex_lt_toLex.2 (.inr ⟨rfl, Prod.Lex.toLex_lt_toLex.2 (.inr ⟨rfl, hlt⟩)⟩)
  · refine (pairwise_profilePlace hprofiles).imp fun hlt a ha b hb => ?_
    obtain ⟨_, -, rfl⟩ := List.mem_map.1 ha
    obtain ⟨_, -, rfl⟩ := List.mem_map.1 hb
    exact Prod.Lex.toLex_lt_toLex.2 (.inr ⟨rfl, Prod.Lex.toLex_lt_toLex.2 (.inl hlt)⟩)
  · refine (inOrderOf_self hlabels).imp fun hlt a ha b hb => ?_
    obtain ⟨_, -, ha⟩ := List.mem_flatMap.1 ha
    obtain ⟨_, -, rfl⟩ := List.mem_map.1 ha
    obtain ⟨_, -, hb⟩ := List.mem_flatMap.1 hb
    obtain ⟨_, -, rfl⟩ := List.mem_map.1 hb
    exact Prod.Lex.toLex_lt_toLex.2 (.inl hlt)

end LookupKeys

namespace Expander

variable {expander : Expander} {application profile label : String} {keys : LookupKeys}

/-- What an expansion gives: lists of candidates with the words of the request in the opposite order, and
from them each lookup once, sorted by label, profile and application. -/
theorem expand_spec (h : expander.expand application profile label = .ok keys) :
    (Candidates keys.applications ∧ Candidates keys.profiles ∧ Candidates keys.labels ∧
        sharedApplication ∈ keys.applications) ∧
      (Reverses (commaWords application) keys.applications ∧
        (sharedApplication ∉ commaWords application →
          keys.applications.getLast? = some sharedApplication)) ∧
      (commaWords profile ⊆ keys.profiles ∧
        ∀ a b, Precedes (commaWords profile) a b →
          (expander.configIncomplete = true → a ≠ defaultProfile ∧ b ≠ defaultProfile) →
            Precedes keys.profiles b a) ∧
      Reverses (if commaWords label = [] then commaWords expander.defaultLabel else commaWords label)
        keys.labels ∧
      (∀ lookup, lookup ∈ keys.lookups ↔
        lookup.label ∈ keys.labels ∧
          ((∃ profile ∈ keys.profiles, lookup.profile = some profile) ∨
            lookup.profile = none ∧ expander.configIncomplete = false) ∧
          lookup.application ∈ keys.applications) ∧
      keys.lookups.Nodup ∧
      keys.lookups.Pairwise fun a b => keys.place a < keys.place b := by
  obtain ⟨happlications, hlabels, hprofiles, hfallback⟩ := expand_eq_ok_iff.1 h
  have hcandidates := candidates_applications happlications
  have hcandidates' : Candidates keys.profiles := hprofiles ▸ candidates_profiles expander profile
  have hcandidates'' := candidates_labels hlabels
  have hsorted := LookupKeys.pairwise_place hcandidates''.nodup hcandidates'.nodup hcandidates.nodup
  refine ⟨⟨hcandidates, hcandidates', hcandidates'', sharedApplication_mem happlications⟩,
    ⟨reverses_applications happlications, getLast?_applications happlications⟩, ⟨?_, ?_⟩,
    reverses_labels hlabels, fun lookup => ?_, ?_, hsorted⟩
  · rw [hprofiles]
    exact commaWords_subset_profiles expander profile
  · intro a b hab hdefault
    rw [hprofiles]
    exact precedes_profiles hab hdefault
  · rw [LookupKeys.mem_lookups_iff, LookupKeys.mem_profileChoices_iff, hfallback, Bool.not_eq_true']
  · exact hsorted.imp fun hlt heq => absurd (heq ▸ hlt) (lt_irrefl _)

/-- A repository without properties for all profiles, with two labels of its own. -/
def partialRepository : Expander := ⟨"main, next", true⟩

theorem expand_spec_partialRepository :
    ∃ keys, partialRepository.expand "shop,, cart ,shop" "dev, default ,test" " , " = .ok keys ∧
      Precedes keys.applications "cart" "shop" ∧
        keys.applications.getLast? = some sharedApplication ∧
          Precedes keys.profiles "test" "dev" ∧ Precedes keys.labels "next" "main" ∧
            keys.lookups.Nodup ∧ ⟨"main", none, "shop"⟩ ∉ keys.lookups := by
  obtain ⟨keys, hkeys⟩ : ∃ keys,
      partialRepository.expand "shop,, cart ,shop" "dev, default ,test" " , " = .ok keys := ⟨_, by rfl⟩
  obtain ⟨-, ⟨happlications, hlast⟩, ⟨-, hprofiles⟩, hlabels, hmem, hnodup, -⟩ := expand_spec hkeys
  refine ⟨keys, hkeys, happlications.reversed "shop" "cart" (by decide), hlast (by decide),
    hprofiles "dev" "test" (by decide) (by decide), hlabels.reversed "main" "next" (by decide), hnodup,
    fun hnone => ?_⟩
  simpa [partialRepository] using (hmem _).1 hnone

end Expander

end LayeredConfig
