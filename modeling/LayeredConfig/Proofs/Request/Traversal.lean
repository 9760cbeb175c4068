import LayeredConfig.Proofs.Lookup.Expansion
import LayeredConfig.Proofs.Request.Escapes

/-!
# No lookup leads out of a directory

A request is checked before slashes are restored in its names and before its lists are divided into words.
Neither can bring back what was rejected: a word is a part of the text, and a slash that is restored
belongs to nothing that leads out of a directory.

* `make_eq_ok_iff` — which requests are accepted.
* `harmless_restoreSlashes` — restoring slashes.
* `harmless_of_mem_lookups` — what providers are asked for.
-/

namespace LayeredConfig

namespace Request

variable {application profile : String} {label : Option String} {request : Request}
variable {s w : List Char}

/-- A request is accepted where none of its parts is unsafe and an application is named. -/
theorem make_eq_ok_iff :
    make application profile label = .ok request ↔
      Harmless application.toList ∧ Harmless profile.toList ∧
        (∀ text ∈ label, Harmless text.toList) ∧ isBlankText application = false ∧
          request = ⟨normalize application, profile,
            (label.filter fun text => !isBlankText text).map normalize⟩ := by
  simp only [← isUnsafe_eq_false_iff]
  rw [make]
  cases happlication : isUnsafe application.toList with
  | true => simp [checkPart, happlication, bind, Except.bind]
  | false =>
      cases hprofile : isUnsafe profile.toList with
      | true => simp [checkPart, happlication, hprofile, bind, Except.bind]
      | false =>
          cases label with
          | none =>
              cases hblank : isBlankText application <;>
                simp [checkPart, happlication, hprofile, bind, Except.bind, @eq_comm _ request]
          | some text =>
              cases hlabel : isUnsafe text.toList <;> cases hblank : isBlankText application <;>
                simp [checkPart, happlication, hprofile, hlabel, bind, Except.bind,
                  @eq_comm _ request]

/-! ## Restoring slashes -/

theorem prefix_of_prefix_restoreSlashes (h : w <+: restoreSlashes s) (hw : '/' ∉ w) : w <+: s := by
  fun_induction restoreSlashes s generalizing w with
  | case1 s ih =>
      cases w with
      | nil => exact List.nil_prefix
      | cons c w =>
          rw [List.cons_prefix_cons] at h
          simp [h.1] at hw
  | case2 c s hplain ih =>
      cases w with
      | nil => exact List.nil_prefix
      | cons d w =>
          rw [List.mem_cons, not_or] at hw
          rw [List.cons_prefix_cons] at h ⊢
          exact ⟨h.1, ih h.2 hw.2⟩
  | case3 => exact h

/-- A part without a slash was there before slashes were restored. -/
theorem isInfix_of_isInfix_restoreSlashes (h : w <:+: restoreSlashes s) (hw : '/' ∉ w) :
    w <:+: s := by
  fun_induction restoreSlashes s with
  | case1 s ih =>
      rcases List.infix_cons_iff.1 h with h | h
      · cases w with
        | nil => exact List.nil_infix
        | cons c w =>
            rw [List.cons_prefix_cons] at h
            simp [h.1] at hw
      · exact (ih h).trans (List.suffix_append ['(', '_', ')'] s).isInfix
  | case2 c s hplain ih =>
      rcases List.infix_cons_iff.1 h with h' | h'
      · have hrestore : restoreSlashes (c :: s) = c :: restoreSlashes s := restoreSlashes.eq_2 c s hplain
        exact (prefix_of_prefix_restoreSlashes (hrestore ▸ h') hw).isInfix
      · exact List.infix_cons (ih h')
  | case3 => exact h

/-- No way of writing an unsafe character has a slash. -/
theorem Spells.slash_not_mem {part : List Char} {c : Char} (h : Spells part c) (hc : IsUnsafeChar c) :
    '/' ∉ part := by
  cases h with
  | plain => rcases hc with rfl | rfl | rfl <;> decide
  | escape h =>
      rcases escape?_eq_some h with ⟨rfl, hb, rfl⟩ | ⟨rfl, hb, rfl⟩ | ⟨rfl, hb, rfl⟩ | ⟨rfl, hb, rfl⟩
      all_goals
        simp only [List.mem_cons, List.not_mem_nil, or_false, not_or]
        refine ⟨by decide, by decide, ?_⟩
        rintro rfl
        exact absurd hb (by decide)

theorem slash_not_mem_flatten {parts : List (List Char)} (h : List.Forall₂ Spells parts w)
    (hw : ∀ c ∈ w, IsUnsafeChar c) : '/' ∉ parts.flatten := by
  induction h with
  | nil => simp
  | cons hpart hparts ih =>
      rw [List.forall_mem_cons] at hw
      rw [List.flatten_cons, List.mem_append, not_or]
      exact ⟨hpart.slash_not_mem hw.1, ih hw.2⟩

theorem spelled_of_spelled_restoreSlashes (h : Spelled w (restoreSlashes s))
    (hw : ∀ c ∈ w, IsUnsafeChar c) : Spelled w s := by
  obtain ⟨parts, hparts, hpart⟩ := h
  exact ⟨parts, hparts, isInfix_of_isInfix_restoreSlashes hpart (slash_not_mem_flatten hparts hw)⟩

/-- Restoring slashes brings back nothing that leads out of a directory. -/
theorem harmless_restoreSlashes (h : Harmless s) : Harmless (restoreSlashes s) := by
  rw [harmless_iff, confined_unescape_iff] at h ⊢
  obtain ⟨hpoints, hback, hnul⟩ := h
  exact ⟨fun h => hpoints (spelled_of_spelled_restoreSlashes h (by simp [IsUnsafeChar])),
    fun h => hback (spelled_of_spelled_restoreSlashes h (by simp [IsUnsafeChar])),
    fun h => hnul (spelled_of_spelled_restoreSlashes h (by simp [IsUnsafeChar]))⟩

theorem harmless_normalize {text : String} (h : Harmless text.toList) :
    Harmless (normalize text).toList := by
  rw [normalize, String.toList_ofList]
  exact harmless_restoreSlashes h

theorem harmless_labelText (h : ∀ text ∈ request.label, Harmless text.toList) :
    Harmless request.labelText.toList := by
  rw [labelText]
  cases hlabel : request.label with
  | none => exact isUnsafe_eq_false_iff.1 (by decide)
  | some text => exact h text hlabel

/-! ## Lookups -/

theorem harmless_of_mem_commaWords {word text : String} (h : Harmless text.toList)
    (hword : word ∈ commaWords text) : Harmless word.toList :=
  h.of_isInfix (infix_of_mem_commaWords hword)

/-- Providers are never asked for anything that leads out of a directory. -/
theorem harmless_of_mem_lookups {expander : Expander} {keys : LookupKeys} {lookup : Lookup}
    (hrequest : make application profile label = .ok request)
    (hdefault : Harmless expander.defaultLabel.toList)
    (hkeys : expander.keysOf request = .ok keys) (hlookup : lookup ∈ keys.lookups) :
    Harmless lookup.application.toList ∧ (∀ name ∈ lookup.profile, Harmless name.toList) ∧
      Harmless lookup.label.toList := by
  obtain ⟨happlication, hprofile, hlabel, -, rfl⟩ := make_eq_ok_iff.1 hrequest
  obtain ⟨happlications, hlabels, hprofiles, -⟩ := Expander.expand_eq_ok_iff.1 hkeys
  obtain ⟨hlabel', hprofile', happlication'⟩ := LookupKeys.mem_lookups_iff.1 hlookup
  refine ⟨?_, fun name hname => ?_, ?_⟩
  · rcases Expander.eq_or_mem_of_mem_applications happlications happlication' with heq | hword
    · rw [heq]
      exact isUnsafe_eq_false_iff.1 (by decide)
    · exact harmless_of_mem_commaWords (harmless_normalize happlication) hword
  · rw [hname, LookupKeys.mem_profileChoices_iff, hprofiles] at hprofile'
    obtain ⟨_, hmem, ⟨⟩⟩ | ⟨⟨⟩, -⟩ := hprofile'
    rcases Expander.eq_or_mem_of_mem_profiles hmem with rfl | hword
    · exact isUnsafe_eq_false_iff.1 (by decide)
    · exact harmless_of_mem_commaWords hprofile hword
  · rcases Expander.mem_or_mem_of_mem_labels hlabels hlabel' with hword | hword
    · refine harmless_of_mem_commaWords (harmless_labelText fun text htext => ?_) hword
      obtain ⟨raw, hraw, rfl⟩ := Option.map_eq_some_iff.1 htext
      exact harmless_normalize (hlabel raw (Option.filter_eq_some_iff.1 hraw).1)
    · exact harmless_of_mem_commaWords hdefault hword

theorem harmless_of_mem_lookups_teamRequest :
    ∃ request keys, make "team(_)shop, %2eeast" "dev" (some "feature(_)x") = .ok request ∧
      Expander.keysOf {} request = .ok keys ∧
        ⟨"feature/x", none, "%2eeast"⟩ ∈ keys.lookups ∧ Harmless "%2eeast".toList ∧
          ⟨"feature/x", some "dev", "team/shop"⟩ ∈ keys.lookups ∧ Harmless "team/shop".toList ∧
            Harmless "feature/x".toList := by
  obtain ⟨request, keys, hrequest, hkeys, heast, hshop⟩ : ∃ request keys,
      make "team(_)shop, %2eeast" "dev" (some "feature(_)x") = .ok request ∧
        Expander.keysOf {} request = .ok keys ∧ ⟨"feature/x", none, "%2eeast"⟩ ∈ keys.lookups ∧
          ⟨"feature/x", some "dev", "team/shop"⟩ ∈ keys.lookups :=
    ⟨_, _, by rfl, by rfl, by decide, by decide⟩
  have hdefault : Harmless ({} : Expander).defaultLabel.toList := isUnsafe_eq_false_iff.1 (by decide)
  obtain ⟨heast', -, -⟩ := harmless_of_mem_lookups hrequest hdefault hkeys heast
  obtain ⟨hshop', -, hlabel⟩ := harmless_of_mem_lookups hrequest hdefault hkeys hshop
  exact ⟨request, keys, hrequest, hkeys, heast, heast', hshop, hshop', hlabel⟩

end Request

end LayeredConfig
