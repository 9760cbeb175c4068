import LayeredConfig.Config.Substitution
import LayeredConfig.Proofs.Text.Pieces
import LayeredConfig.Proofs.Text.Runs

/-!
# References to variables

A text refers to a variable by the name of the variable in braces behind a dollar sign.  The reference is
replaced unless another dollar sign stands in front of it, whatever stands around the two.

* `Refers` — the variables that a text refers to, by what stands in front of a reference.
* `reference_eq_some_iff` — a reference is read where its own text stands.
* `neededNames_append_reference`, `exists_of_neededNames_eq` — the references of a text and their order.
* `written_eq` — a text is replaced up to the first variable that is missing.
* `Expanded`, `expanded_filled` — what a text becomes.
-/

namespace LayeredConfig.Substitution

/-- A name in braces. -/
def braced (w : List Char) : List Char := '{' :: (w ++ ['}'])

/-- The variable that a reference names. -/
def Reference.name : Reference → String
  | .replaced name => name
  | .escaped name => name

/-- The text of a reference. -/
def Reference.text : Reference → List Char
  | .replaced name => '$' :: braced name.toList
  | .escaped name => '$' :: '$' :: braced name.toList

variable {vars : Variables} {name : String} {c : Char} {n : Nat} {r : Reference}
variable {w s t before after : List Char}

/-- The name of a variable: capital letters, underscores and digits, without a digit in front. -/
structure IsVariable (w : List Char) : Prop where
  start : w.head?.any isNameStart = true
  chars : ∀ c ∈ w, isNameChar c = true

theorem isVariable_iff : IsVariable w ↔ w.head?.any isNameStart = true ∧ w.all isNameChar = true := by
  rw [List.all_eq_true]
  exact ⟨fun h => ⟨h.start, h.chars⟩, fun h => ⟨h.1, h.2⟩⟩

instance : DecidablePred IsVariable := fun _ => decidable_of_iff _ isVariable_iff.symm

/-- A text refers to a variable: the reference stands in it without a dollar sign in front. -/
def Refers (s : List Char) (name : String) : Prop :=
  IsVariable name.toList ∧
    ∃ before after, s = before ++ '$' :: (braced name.toList ++ after) ∧ before.getLast? ≠ some '$'

/-- A variable is set, and not to the empty text. -/
def Provided (vars : Variables) (name : String) : Prop := ∃ value, vars name = some value ∧ value ≠ ""

/-- A text and what it becomes: references are replaced by the values of their variables, escaped references
lose their first dollar sign, and every other character stands for itself. -/
inductive Expanded (vars : Variables) : List Char → List Char → Prop
  | nil : Expanded vars [] []
  | replaced {s t : List Char} {name value : String} (hname : IsVariable name.toList)
      (hvalue : vars name = some value) (hne : value ≠ "") (h : Expanded vars s t) :
      Expanded vars ('$' :: (braced name.toList ++ s)) (value.toList ++ t)
  | escaped {s t : List Char} {name : String} (hname : IsVariable name.toList) (h : Expanded vars s t) :
      Expanded vars ('$' :: '$' :: (braced name.toList ++ s)) ('$' :: (braced name.toList ++ t))
  | plain {c : Char} {s t : List Char}
      (hnone : ∀ w, IsVariable w → ¬ '$' :: braced w <+: c :: s ∧ ¬ '$' :: '$' :: braced w <+: c :: s)
      (h : Expanded vars s t) : Expanded vars (c :: s) (c :: t)

/-! ## Reading a reference -/

theorem IsVariable.dollar_not_mem_braced (h : IsVariable w) : '$' ∉ braced w := by
  rw [braced, List.mem_cons, List.mem_append, not_or, not_or]
  refine ⟨by decide, fun hmem => ?_, by decide⟩
  exact absurd (h.chars _ hmem) (by decide)

theorem braced_ne_nil (w : List Char) : braced w ≠ [] := List.cons_ne_nil _ _

theorem length_braced (w : List Char) : (braced w).length = w.length + 2 := by simp [braced]

theorem bracedName?_eq_some_iff : bracedName? s = some w ↔ IsVariable w ∧ braced w <+: s := by
  constructor
  · intro h
    unfold bracedName? at h
    split at h
    · next s =>
        simp only at h
        split at h
        · next rest hdrop =>
            obtain ⟨hstart, hw⟩ := Option.ite_none_right_eq_some.1 h
            obtain rfl := Option.some.inj hw
            refine ⟨⟨hstart, fun c hc => List.mem_takeWhile_imp hc⟩, rest, ?_⟩
            have hs : s.takeWhile isNameChar ++ s.dropWhile isNameChar = s :=
              List.takeWhile_append_dropWhile
            rw [hdrop] at hs
            simpa [braced] using hs
        · contradiction
    · contradiction
  · rintro ⟨h, t, rfl⟩
    have hclose : isNameChar '}' = false := by decide
    have htake := Text.takeWhile_append_cons h.chars hclose t
    have hdrop := Text.dropWhile_append_cons h.chars hclose t
    simp [braced, bracedName?, htake, hdrop, h.start]

theorem reference_double (s : List Char) :
    reference ('$' :: '$' :: s) =
      (bracedName? s).map fun w => (.escaped (String.ofList w), w.length + 4) := rfl

theorem reference_single (h : s.head? ≠ some '$') :
    reference ('$' :: s) =
      (bracedName? s).map fun w => (.replaced (String.ofList w), w.length + 3) := by
  rw [reference]
  rintro t rfl
  exact h rfl

theorem Reference.text_ne_nil (r : Reference) : r.text ≠ [] := by
  cases r <;> exact List.cons_ne_nil _ _

theorem reference_text_append (h : IsVariable r.name.toList) (s : List Char) :
    reference (r.text ++ s) = some (r, r.text.length) := by
  have hbraced := bracedName?_eq_some_iff.2 ⟨h, List.prefix_append (braced r.name.toList) s⟩
  cases r with
  | replaced name =>
      have hhead : (braced name.toList ++ s).head? ≠ some '$' := by simp [braced]
      rw [Reference.name] at hbraced
      rw [Reference.text, List.cons_append, reference_single hhead, hbraced]
      simp [length_braced]
  | escaped name =>
      rw [Reference.name] at hbraced
      rw [Reference.text, List.cons_append, List.cons_append, reference_double, hbraced]
      simp [length_braced]

theorem exists_of_reference (h : reference s = some (r, n)) :
    IsVariable r.name.toList ∧ n = r.text.length ∧ r.text <+: s := by
  unfold reference at h
  split at h
  · obtain ⟨w, hw, heq⟩ := Option.map_eq_some_iff.1 h
    obtain ⟨hname, hstart⟩ := bracedName?_eq_some_iff.1 hw
    obtain ⟨rfl, rfl⟩ := Prod.mk.inj heq
    simpa [Reference.name, Reference.text, length_braced, List.cons_prefix_cons] using ⟨hname, hstart⟩
  · obtain ⟨w, hw, heq⟩ := Option.map_eq_some_iff.1 h
    obtain ⟨hname, hstart⟩ := bracedName?_eq_some_iff.1 hw
    obtain ⟨rfl, rfl⟩ := Prod.mk.inj heq
    simpa [Reference.name, Reference.text, length_braced, List.cons_prefix_cons] using ⟨hname, hstart⟩
  · contradiction

/-- A reference is read where its own text stands. -/
theorem reference_eq_some_iff :
    reference s = some (r, n) ↔ IsVariable r.name.toList ∧ n = r.text.length ∧ r.text <+: s := by
  constructor
  · exact exists_of_reference
  · rintro ⟨hname, rfl, t, rfl⟩
    exact reference_text_append hname t

/-- The text that a reference is read from. -/
def Reference.Spells (r : Reference) (m : List Char) : Prop := IsVariable r.name.toList ∧ m = r.text

theorem spelled_reference : Text.Spelled reference Reference.Spells where
  ne_nil := by
    rintro r _ ⟨-, rfl⟩
    exact r.text_ne_nil
  eq_some_iff := by
    intro s r n
    rw [reference_eq_some_iff]
    constructor
    · exact fun ⟨hname, hn, hstart⟩ => ⟨_, ⟨hname, rfl⟩, hn, hstart⟩
    · rintro ⟨_, ⟨hname, rfl⟩, hn, hstart⟩
      exact ⟨hname, hn, hstart⟩

/-- Induction on a text: a reference in front, or a character at which none is read. -/
theorem reference_induction {P : List Char → Prop} (nil : P [])
    (found : ∀ r s, IsVariable (Reference.name r).toList → P s → P (r.text ++ s))
    (plain : ∀ c s, reference (c :: s) = none → P s → P (c :: s)) (s : List Char) : P s := by
  induction s using Text.pieces_induction spelled_reference with
  | nil => exact nil
  | found r m s hm ih =>
      obtain ⟨hname, rfl⟩ := hm
      exact found r s hname ih
  | plain c s hnone ih => exact plain c s hnone ih

/-! ## The references of a text -/

theorem neededNames_text_append (h : IsVariable r.name.toList) (s : List Char) :
    neededNames (r.text ++ s) = r.needed?.toList ++ neededNames s := by
  rw [neededNames, Text.occurrences_of_some (reference_text_append h s) r.text_ne_nil,
    List.filterMap_cons]
  cases r <;> rfl

theorem neededNames_cons (h : reference (c :: s) = none) : neededNames (c :: s) = neededNames s := by
  rw [neededNames, Text.occurrences_of_none h, neededNames]

/-- The only dollar sign within a reference stands behind the one that escapes it. -/
theorem eq_dollar_of_text (h : IsVariable r.name.toList) (hne : s ≠ []) (htext : r.text = s ++ '$' :: t) :
    s = ['$'] := by
  obtain ⟨c, s, rfl⟩ := List.exists_cons_of_ne_nil hne
  cases r with
  | replaced name =>
      rw [Reference.text, List.cons_append] at htext
      have hbraced : braced name.toList = s ++ '$' :: t := (List.cons.inj htext).2
      exact absurd (hbraced ▸ List.mem_append_cons_self) h.dollar_not_mem_braced
  | escaped name =>
      rw [Reference.text, List.cons_append] at htext
      obtain ⟨rfl, hbehind⟩ := List.cons.inj htext
      cases s with
      | nil => rfl
      | cons d s =>
          have hbraced : braced name.toList = s ++ '$' :: t := (List.cons.inj hbehind).2
          exact absurd (hbraced ▸ List.mem_append_cons_self) h.dollar_not_mem_braced

/-- No reference goes on over a dollar sign, unless the one that escapes it stands in front. -/
theorem apart_dollar (hlast : s.getLast? ≠ some '$') (t : List Char) :
    Text.Apart Reference.Spells s ('$' :: t) := by
  rintro r m u w ⟨hname, rfl⟩ hu ⟨front, rfl⟩ hw hstart heq
  obtain ⟨d, w, rfl⟩ := List.exists_cons_of_ne_nil hw
  obtain ⟨rfl, -⟩ := List.cons_prefix_cons.1 hstart
  obtain rfl := eq_dollar_of_text hname hu heq
  exact hlast List.getLast?_concat

theorem Reference.getLast?_text (r : Reference) : r.text.getLast? = some '}' := by
  have hbraced : ∀ w, (braced w).getLast? = some '}' := fun w => by
    rw [braced, ← List.cons_append, List.getLast?_concat]
  cases r with
  | replaced name =>
      rw [Reference.text, List.getLast?_cons_of_ne_nil (braced_ne_nil _), hbraced]
  | escaped name =>
      rw [Reference.text, List.getLast?_cons_cons, List.getLast?_cons_of_ne_nil (braced_ne_nil _), hbraced]

theorem getLast?_text_append (hlast : s.getLast? ≠ some '$') : (r.text ++ s).getLast? ≠ some '$' := by
  rw [List.getLast?_append, r.getLast?_text]
  cases hs : s.getLast? with
  | none => decide
  | some c => rwa [hs] at hlast

theorem neededNames_append_dollar (hlast : s.getLast? ≠ some '$') (t : List Char) :
    neededNames (s ++ '$' :: t) = neededNames s ++ neededNames ('$' :: t) := by
  rw [neededNames, Text.occurrences_append spelled_reference (apart_dollar hlast t), List.filterMap_append,
    neededNames, neededNames]

/-- The references in front of one come before it, and those behind it come after it. -/
theorem neededNames_append_reference (hname : IsVariable name.toList) (hlast : before.getLast? ≠ some '$')
    (after : List Char) :
    neededNames (before ++ '$' :: (braced name.toList ++ after)) =
      neededNames before ++ name :: neededNames after := by
  have htext := neededNames_text_append (r := .replaced name) hname after
  rw [neededNames_append_dollar hlast]
  exact congrArg (neededNames before ++ ·) htext

/-- A reference that is needed stands in the text, between those in front of it and those behind it. -/
theorem exists_of_neededNames_eq {names names' : List String} (h : neededNames s = names ++ name :: names') :
    IsVariable name.toList ∧ ∃ before after, s = before ++ '$' :: (braced name.toList ++ after) ∧
      before.getLast? ≠ some '$' ∧ neededNames before = names := by
  induction s using reference_induction generalizing names with
  | nil => simp [neededNames, Text.occurrences, Text.pieces, Text.piecesAfter] at h
  | found r s hr ih =>
      -- a reference in front is the one that is looked for, or it belongs to what is in front of that
      have hbehind : ∀ names, neededNames s = names ++ name :: names' → IsVariable name.toList ∧
          ∃ before after, r.text ++ s = before ++ '$' :: (braced name.toList ++ after) ∧
            before.getLast? ≠ some '$' ∧ neededNames before = r.needed?.toList ++ names := by
        intro names hnames
        obtain ⟨hname, before, after, hs, hlast, hbefore⟩ := ih hnames
        refine ⟨hname, r.text ++ before, after, by rw [hs, List.append_assoc], getLast?_text_append hlast, ?_⟩
        rw [neededNames_text_append hr, hbefore]
      rw [neededNames_text_append hr] at h
      cases r with
      | replaced first =>
          cases names with
          | nil =>
              obtain ⟨rfl, -⟩ := List.cons.inj h
              exact ⟨hr, [], s, rfl, by simp, rfl⟩
          | cons first' names =>
              obtain ⟨rfl, hnames⟩ := List.cons.inj h
              exact hbehind names hnames
      | escaped escaped => exact hbehind names h
  | plain c s hnone ih =>
      rw [neededNames_cons hnone] at h
      obtain ⟨hname, before, after, rfl, hlast, hbefore⟩ := ih h
      have hlast' : (c :: before).getLast? ≠ some '$' := by
        cases before with
        | nil =>
            -- behind a dollar sign the reference would be an escaped one
            rintro ⟨⟩
            have hescaped := reference_text_append (r := .escaped name) hname after
            rw [Reference.text] at hescaped
            exact absurd (hnone.symm.trans hescaped) (by simp)
        | cons d before => rwa [List.getLast?_cons_cons]
      have hnone' : reference (c :: before) = none := by
        rw [← spelled_reference.append_eq (List.cons_ne_nil c before) (apart_dollar hlast' _), List.cons_append,
          hnone]
      exact ⟨hname, c :: before, after, rfl, hlast', by rw [neededNames_cons hnone', hbefore]⟩

theorem mem_neededNames_iff : name ∈ neededNames s ↔ Refers s name := by
  constructor
  · intro h
    obtain ⟨names, names', h⟩ := List.append_of_mem h
    obtain ⟨hname, before, after, hs, hlast, -⟩ := exists_of_neededNames_eq h
    exact ⟨hname, before, after, hs, hlast⟩
  · rintro ⟨hname, before, after, rfl, hlast⟩
    simp [neededNames_append_reference hname hlast]

/-! ## Missing variables -/

theorem bound?_eq_some_iff {value : String} :
    bound? vars name = some value ↔ vars name = some value ∧ value ≠ "" := by
  rw [bound?, Option.filter_eq_some_iff]
  simp

theorem isSome_bound?_iff : (bound? vars name).isSome = true ↔ Provided vars name := by
  rw [Option.isSome_iff_exists, Provided]
  exact exists_congr fun value => bound?_eq_some_iff

theorem isNone_bound?_iff : (bound? vars name).isNone = true ↔ ¬ Provided vars name := by
  rw [← isSome_bound?_iff, ← Option.not_isSome, Bool.not_eq_true', Bool.not_eq_true]

/-- The first of the variables that a text needs and that is not provided. -/
def firstMissing? (vars : Variables) (s : List Char) : Option String :=
  (neededNames s).find? fun name => (bound? vars name).isNone

theorem firstMissing?_eq_none_iff :
    firstMissing? vars s = none ↔ ∀ name, Refers s name → Provided vars name := by
  rw [firstMissing?, List.find?_eq_none]
  refine forall_congr' fun name => ?_
  rw [mem_neededNames_iff, isNone_bound?_iff, not_not]

/-- The variable that is missing first has a reference behind which nothing matters: all that stand in front of
it are provided. -/
theorem firstMissing?_eq_some_iff :
    firstMissing? vars s = some name ↔ IsVariable name.toList ∧ ¬ Provided vars name ∧
      ∃ before after, s = before ++ '$' :: (braced name.toList ++ after) ∧ before.getLast? ≠ some '$' ∧
        ∀ other, Refers before other → Provided vars other := by
  rw [firstMissing?, List.find?_eq_some_iff_append, isNone_bound?_iff]
  constructor
  · rintro ⟨hmissing, names, names', hneeded, hnames⟩
    obtain ⟨hname, before, after, hs, hlast, rfl⟩ := exists_of_neededNames_eq hneeded
    refine ⟨hname, hmissing, before, after, hs, hlast, fun other hother => isSome_bound?_iff.1 ?_⟩
    simpa using hnames other (mem_neededNames_iff.2 hother)
  · rintro ⟨hname, hmissing, before, after, rfl, hlast, hbefore⟩
    refine ⟨hmissing, _, _, neededNames_append_reference hname hlast after, fun other hother => ?_⟩
    have hprovided := hbefore other (mem_neededNames_iff.1 hother)
    simpa using isSome_bound?_iff.2 hprovided

/-! ## The text that is written -/

/-- What a reference is replaced by; a missing variable is taken for an empty one. -/
def Reference.filled (vars : Variables) : Reference → List Char
  | .replaced name => ((bound? vars name).getD "").toList
  | .escaped name => '$' :: braced name.toList

/-- A text with its references replaced; missing variables are taken for empty ones. -/
def filled (vars : Variables) (s : List Char) : List Char :=
  Text.replaceMatches reference (·.filled vars) s

theorem filled_text_append (h : IsVariable r.name.toList) (s : List Char) :
    filled vars (r.text ++ s) = r.filled vars ++ filled vars s :=
  Text.replaceMatches_of_some (reference_text_append h s) r.text_ne_nil

theorem filled_cons (h : reference (c :: s) = none) : filled vars (c :: s) = c :: filled vars s :=
  Text.replaceMatches_of_none h

theorem written_text_append (h : IsVariable r.name.toList) (s : List Char) :
    written vars (r.text ++ s) = (r.written vars).bind fun part => (written vars s).map (part ++ ·) := by
  rw [written, Text.pieces_of_some (reference_text_append h s) r.text_ne_nil, List.mapM_cons, writtenPiece,
    written]
  cases r.written vars with
  | error name => rfl
  | ok part => cases (Text.pieces reference s).mapM (writtenPiece vars) <;> rfl

theorem written_cons (h : reference (c :: s) = none) :
    written vars (c :: s) = (written vars s).map (c :: ·) := by
  rw [written, Text.pieces_of_none h, List.mapM_cons, writtenPiece, written]
  cases (Text.pieces reference s).mapM (writtenPiece vars) <;> rfl

theorem firstMissing?_cons (h : reference (c :: s) = none) :
    firstMissing? vars (c :: s) = firstMissing? vars s := by
  rw [firstMissing?, neededNames_cons h, firstMissing?]

/-- Writing a text stops at the first of its names that is missing. -/
theorem written_eq (vars : Variables) (s : List Char) :
    written vars s =
      match firstMissing? vars s with
      | some name => .error name
      | none => .ok (filled vars s) := by
  induction s using reference_induction with
  | nil => rfl
  | found r s hr ih =>
      have hneeded := neededNames_text_append hr s
      rw [written_text_append hr, filled_text_append hr, ih]
      cases r with
      | replaced name =>
          cases hbound : bound? vars name with
          | none =>
              have hfirst : firstMissing? vars ((Reference.replaced name).text ++ s) = some name := by
                simp [firstMissing?, hneeded, Reference.needed?, hbound]
              simp [hfirst, Reference.written, hbound, Except.bind]
          | some value =>
              have hfirst : firstMissing? vars ((Reference.replaced name).text ++ s) = firstMissing? vars s := by
                simp [firstMissing?, hneeded, Reference.needed?, hbound]
              rw [hfirst]
              cases firstMissing? vars s <;>
                simp [Reference.written, Reference.filled, hbound, Except.bind, Except.map]
      | escaped name =>
          have hfirst : firstMissing? vars ((Reference.escaped name).text ++ s) = firstMissing? vars s := by
            simp [firstMissing?, hneeded, Reference.needed?]
          rw [hfirst]
          cases firstMissing? vars s <;>
            simp [Reference.written, Reference.filled, braced, Except.bind, Except.map]
  | plain c s hnone ih =>
      rw [written_cons hnone, firstMissing?_cons hnone, filled_cons hnone, ih]
      cases firstMissing? vars s <;> rfl

theorem text_eq (vars : Variables) (path s : String) :
    text vars path s =
      match firstMissing? vars s.toList with
      | some name => .error ⟨name, path⟩
      | none => .ok (String.ofList (filled vars s.toList)) := by
  rw [text, written_eq]
  cases firstMissing? vars s.toList <;> rfl

/-- A text whose variables are provided is expanded, and no value is searched again. -/
theorem expanded_filled (h : ∀ name ∈ neededNames s, Provided vars name) :
    Expanded vars s (filled vars s) := by
  induction s using reference_induction with
  | nil => exact .nil
  | found r s hr ih =>
      rw [neededNames_text_append hr] at h
      have hrest := ih fun name hname => h name (List.mem_append_right _ hname)
      rw [filled_text_append hr]
      cases r with
      | replaced name =>
          obtain ⟨value, hvalue, hne⟩ := h name (List.mem_append_left _ List.mem_cons_self)
          have hbound : bound? vars name = some value := bound?_eq_some_iff.2 ⟨hvalue, hne⟩
          rw [Reference.filled, hbound]
          exact .replaced hr hvalue hne hrest
      | escaped name =>
          have hname : IsVariable name.toList := hr
          have hescaped := Expanded.escaped hname hrest
          simpa [Reference.text, Reference.filled, braced] using hescaped
  | plain c s hnone ih =>
      rw [neededNames_cons hnone] at h
      rw [filled_cons hnone]
      refine .plain (fun w hw => ?_) (ih h)
      have hnot : ∀ r : Reference, r.name = String.ofList w → ¬ r.text <+: c :: s := by
        intro r hr hstart
        have hread := reference_eq_some_iff.2 ⟨by rwa [hr, String.toList_ofList], rfl, hstart⟩
        exact absurd (hnone.symm.trans hread) (by simp)
      have hreplaced := hnot (.replaced (String.ofList w)) rfl
      have hescaped := hnot (.escaped (String.ofList w)) rfl
      simp only [Reference.text, String.toList_ofList] at hreplaced hescaped
      exact ⟨hreplaced, hescaped⟩

/-- Only the variables that a text refers to matter. -/
theorem filled_congr {vars' : Variables} (h : ∀ name ∈ neededNames s, vars' name = vars name) :
    filled vars' s = filled vars s := by
  induction s using reference_induction with
  | nil => rfl
  | found r s hr ih =>
      rw [neededNames_text_append hr] at h
      have hrest := ih fun name hname => h name (List.mem_append_right _ hname)
      rw [filled_text_append hr, filled_text_append hr, hrest]
      cases r with
      | replaced name =>
          have hname := h name (List.mem_append_left _ List.mem_cons_self)
          rw [Reference.filled, Reference.filled, bound?, bound?, hname]
      | escaped name => rfl
  | plain c s hnone ih =>
      rw [neededNames_cons hnone] at h
      rw [filled_cons hnone, filled_cons hnone, ih h]

end LayeredConfig.Substitution
