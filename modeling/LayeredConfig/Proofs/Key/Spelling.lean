import LayeredConfig.Key
import Mathlib.Data.List.TakeWhile

/-!
# Spelling of keys

What a key looks like from any of its segments on, seen as a relation.  A *tail* is the text of some
segments behind others: a name follows a point, an index stands in brackets.  A whole key is a tail
without its first point.

* `Spells` — a tail and the segments that it spells.  Digits may carry leading zeros, so a tail is
  not determined by its segments; `Spells.eq_continued` says that it is when no index has one.
* `Scanned` — a tail and its tokens, positions and remainders included.
* `parse_eq_ok_iff` — reading a key gives exactly the tokens that `Scanned` admits.
-/

namespace LayeredConfig

theorem map_eq_ok {ε α β : Type} {f : α → β} {x : Except ε α} {b : β} :
    x.map f = .ok b ↔ ∃ a, x = .ok a ∧ f a = b := by
  cases x <;> simp [Except.map]

namespace Key

/-- A name as keys write it: non-empty, without `.` and `[`. -/
def IsName (n : List Char) : Prop := n ≠ [] ∧ ∀ c ∈ n, isNameChar c = true

instance : DecidablePred IsName := fun n =>
  decidable_of_iff (n ≠ [] ∧ n.all isNameChar = true) (by simp [IsName])

/-- The digits of an index as keys write it. -/
def IsIndex (digits : List Char) : Prop :=
  digits ≠ [] ∧ (∀ c ∈ digits, Text.isDigit c = true) ∧ indexValue digits ≤ maxIndex

/-- A tail and the segments that it spells. -/
inductive Spells : List Segment → List Char → Prop
  | nil : Spells [] []
  | name {n : String} {segments : List Segment} {s : List Char}
      (hn : IsName n.toList) (h : Spells segments s) :
      Spells (.name n :: segments) ('.' :: (n.toList ++ s))
  | index {digits : List Char} {segments : List Segment} {s : List Char}
      (hd : IsIndex digits) (h : Spells segments s) :
      Spells (.index (indexValue digits) :: segments) ('[' :: (digits ++ ']' :: s))

/-- A tail and its tokens.  The number is the byte position behind the first character of the tail,
where a name would start. -/
inductive Scanned : Nat → List Token → List Char → Prop
  | nil (p : Nat) : Scanned p [] []
  | name {p : Nat} {n : String} {tokens : List Token} {s : List Char}
      (hn : IsName n.toList) (h : Scanned (p + Text.byteLength n.toList + 1) tokens s) :
      Scanned p (⟨.name n, p, n.toList ++ s⟩ :: tokens) ('.' :: (n.toList ++ s))
  | index {p : Nat} {digits : List Char} {tokens : List Token} {s : List Char}
      (hd : IsIndex digits) (h : Scanned (p + 1 + Text.byteLength digits + 2) tokens s) :
      Scanned (p + 1) (⟨.index (indexValue digits), p, '[' :: (digits ++ ']' :: s)⟩ :: tokens)
        ('[' :: (digits ++ ']' :: s))

/-! ## Where names and digits end -/

/-- The part of a text before its first separator. -/
def stem (s : List Char) : List Char := s.takeWhile isNameChar

/-- The part of a text from its first separator on. -/
def behindStem (s : List Char) : List Char := s.dropWhile isNameChar

theorem stem_append_behindStem (s : List Char) : stem s ++ behindStem s = s :=
  List.takeWhile_append_dropWhile

/-- A text that is empty or starts with a separator: nothing of it belongs to a name before it. -/
def Detached (s : List Char) : Prop := ∀ c ∈ s.head?, isNameChar c = false

theorem detached_nil : Detached [] := by simp [Detached]

theorem detached_cons {c : Char} {s : List Char} : Detached (c :: s) ↔ isNameChar c = false := by
  simp [Detached]

theorem Detached.takeWhile {s : List Char} (h : Detached s) : s.takeWhile isNameChar = [] := by
  cases s with
  | nil => rfl
  | cons c s => simp [detached_cons.1 h]

theorem Detached.dropWhile {s : List Char} (h : Detached s) : s.dropWhile isNameChar = s := by
  cases s with
  | nil => rfl
  | cons c s => simp [detached_cons.1 h]

theorem detached_behindStem (s : List Char) : Detached (behindStem s) := by
  intro c hc
  have h := List.head?_dropWhile_not isNameChar s
  rw [show (s.dropWhile isNameChar).head? = some c from hc] at h
  exact h

theorem stem_append {s t : List Char} (h : Detached t) : stem (s ++ t) = stem s := by
  induction s with
  | nil => simpa [stem] using h.takeWhile
  | cons c s ih =>
      by_cases hc : isNameChar c = true
      · simpa [stem, hc] using ih
      · simp [stem, hc]

theorem behindStem_append {s t : List Char} (h : Detached t) :
    behindStem (s ++ t) = behindStem s ++ t := by
  induction s with
  | nil => simpa [behindStem] using h.dropWhile
  | cons c s ih =>
      by_cases hc : isNameChar c = true
      · simpa [behindStem, hc] using ih
      · simp [behindStem, hc]

theorem IsName.stem {n : List Char} (h : IsName n) : stem n = n :=
  List.takeWhile_eq_self_iff.2 h.2

theorem IsName.behindStem {n : List Char} (h : IsName n) : behindStem n = [] :=
  List.dropWhile_eq_nil_iff.2 h.2

theorem behindStem_eq_nil_iff {s : List Char} : behindStem s = [] ↔ ∀ c ∈ s, isNameChar c = true :=
  List.dropWhile_eq_nil_iff

theorem isName_stem {s : List Char} (h : stem s ≠ []) : IsName (stem s) :=
  ⟨h, fun _ hc => List.mem_takeWhile_imp hc⟩

/-- Two names before detached texts are equal once the whole texts are. -/
theorem IsName.append_inj {m n s t : List Char} (hm : IsName m) (hn : IsName n)
    (hs : Detached s) (ht : Detached t) (h : m ++ s = n ++ t) : m = n ∧ s = t := by
  have hstem : m = n := by
    rw [← hm.stem, ← hn.stem, ← stem_append (s := m) hs, h, stem_append ht]
  subst hstem
  exact ⟨rfl, List.append_cancel_left h⟩

theorem isDigit_ne_bracket {c : Char} (h : Text.isDigit c = true) : c ≠ ']' := by
  rintro rfl
  exact absurd h (by decide)

theorem takeWhile_digits {digits s : List Char} (h : ∀ c ∈ digits, Text.isDigit c = true) :
    (digits ++ ']' :: s).takeWhile (· ≠ ']') = digits := by
  induction digits with
  | nil => simp
  | cons c digits ih =>
      have hc := isDigit_ne_bracket (h c List.mem_cons_self)
      simpa [hc] using ih fun d hd => h d (List.mem_cons_of_mem c hd)

theorem dropWhile_digits {digits s : List Char} (h : ∀ c ∈ digits, Text.isDigit c = true) :
    (digits ++ ']' :: s).dropWhile (· ≠ ']') = ']' :: s := by
  induction digits with
  | nil => simp
  | cons c digits ih =>
      have hc := isDigit_ne_bracket (h c List.mem_cons_self)
      simpa [hc] using ih fun d hd => h d (List.mem_cons_of_mem c hd)

/-- Two runs of digits before a closing bracket are equal once the whole texts are. -/
theorem digits_append_inj {d e s t : List Char} (hd : ∀ c ∈ d, Text.isDigit c = true)
    (he : ∀ c ∈ e, Text.isDigit c = true) (h : d ++ ']' :: s = e ++ ']' :: t) : d = e ∧ s = t := by
  have hde : d = e := by rw [← takeWhile_digits (s := s) hd, h, takeWhile_digits he]
  subst hde
  exact ⟨rfl, by simpa using h⟩

theorem Scanned.detached {p : Nat} {tokens : List Token} {s : List Char} (h : Scanned p tokens s) :
    Detached s := by
  cases h with
  | nil => exact detached_nil
  | name => exact detached_cons.2 (by decide)
  | index => exact detached_cons.2 (by decide)

theorem Spells.detached {segments : List Segment} {s : List Char} (h : Spells segments s) :
    Detached s := by
  cases h with
  | nil => exact detached_nil
  | name => exact detached_cons.2 (by decide)
  | index => exact detached_cons.2 (by decide)

/-! ## Reading a key -/

theorem tokensFrom_name {p : Nat} {n : String} (s : List Char) (hn : IsName n.toList)
    (hs : Detached s) :
    tokensFrom .name p (n.toList ++ s) =
      match s with
      | [] => .ok [⟨.name n, p, n.toList⟩]
      | c :: rest =>
        (if c = '.' then tokensFrom .name (p + Text.byteLength n.toList + 1) rest
          else tokensFrom .index (p + Text.byteLength n.toList) rest).map
          (⟨.name n, p, n.toList ++ s⟩ :: ·) := by
  have htake : (n.toList ++ s).takeWhile isNameChar = n.toList := (stem_append hs).trans hn.stem
  have hdrop : (n.toList ++ s).dropWhile isNameChar = s := by
    have h := behindStem_append (s := n.toList) hs
    rwa [hn.behindStem] at h
  rw [tokensFrom, htake, if_neg (by simpa using hn.1)]
  split
  · rename_i h
    rw [hdrop] at h
    subst h
    simp
  · rename_i c rest h
    rw [hdrop] at h
    subst h
    simp only [String.ofList_toList]
    split <;> rfl

theorem tokensFrom_index {p : Nat} {digits : List Char} (rest : List Char) (hd : IsIndex digits) :
    tokensFrom .index p (digits ++ ']' :: rest) =
      match rest with
      | [] => .ok [⟨.index (indexValue digits), p, '[' :: (digits ++ [']'])⟩]
      | c :: tail =>
        if c = '.' then
          (tokensFrom .name (p + 1 + Text.byteLength digits + 2) tail).map
            (⟨.index (indexValue digits), p, '[' :: (digits ++ ']' :: rest)⟩ :: ·)
        else if c = '[' then
          (tokensFrom .index (p + 1 + Text.byteLength digits + 1) tail).map
            (⟨.index (indexValue digits), p, '[' :: (digits ++ ']' :: rest)⟩ :: ·)
        else .error (.unexpectedAfterIndex (p + 1 + Text.byteLength digits + 1)) := by
  obtain ⟨hne, hall, hmax⟩ := hd
  have htake := takeWhile_digits (s := rest) hall
  have hdrop := dropWhile_digits (s := rest) hall
  rw [tokensFrom]
  split
  · rename_i h
    rw [hdrop] at h
    exact absurd h (by simp)
  · rename_i c rest' h
    rw [hdrop] at h
    obtain ⟨rfl, rfl⟩ := List.cons.inj h
    rw [htake]
    rw [if_neg (by simpa using hne), if_neg (by simpa using hall), if_neg (by omega)]
    cases rest <;> rfl

theorem exists_digits_of_tokensFrom {p : Nat} {s : List Char} {tokens : List Token}
    (h : tokensFrom .index p s = .ok tokens) :
    ∃ digits rest, IsIndex digits ∧ s = digits ++ ']' :: rest := by
  rw [tokensFrom] at h
  split at h
  · contradiction
  · rename_i c rest hdrop
    split at h
    · contradiction
    split at h
    · contradiction
    split at h
    · contradiction
    -- what has been checked on the way is what makes the digits an index
    rename_i hne hall hmax
    refine ⟨s.takeWhile (· ≠ ']'), rest, ⟨fun h0 => hne (List.isEmpty_iff.2 h0),
      by simpa only [Bool.not_eq_true, Bool.not_eq_false', List.all_eq_true] using hall,
      by omega⟩, ?_⟩
    have hc : c = ']' := by
      have hhead := List.head?_dropWhile_not (· ≠ ']') s
      rw [hdrop] at hhead
      simpa using hhead
    subst hc
    rw [← hdrop]
    exact List.takeWhile_append_dropWhile.symm

theorem exists_name_of_tokensFrom {p : Nat} {s : List Char} {tokens : List Token}
    (h : tokensFrom .name p s = .ok tokens) :
    ∃ (n : String) (rest : List Char), IsName n.toList ∧ Detached rest ∧ s = n.toList ++ rest := by
  refine ⟨String.ofList (stem s), behindStem s, ?_, detached_behindStem s, ?_⟩
  · rw [String.toList_ofList]
    apply isName_stem
    intro h0
    have h0' : (s.takeWhile isNameChar).isEmpty = true := List.isEmpty_iff.2 h0
    rw [tokensFrom, if_pos h0'] at h
    contradiction
  · rw [String.toList_ofList, stem_append_behindStem]

/-- What `tokensFrom` returns, by the segment that it expects. -/
theorem scanned_of_tokensFrom (k : Nat) :
    ∀ (s : List Char) (p : Nat) (tokens : List Token), s.length ≤ k →
      (tokensFrom .name p s = .ok tokens → Scanned p tokens ('.' :: s)) ∧
      (tokensFrom .index p s = .ok tokens → Scanned (p + 1) tokens ('[' :: s)) := by
  -- every segment leaves a shorter rest, so the induction is on a bound for the length
  induction k with
  | zero =>
      intro s p tokens hs
      obtain rfl : s = [] := List.length_eq_zero_iff.1 (by omega)
      constructor
      · intro h
        obtain ⟨n, rest, hn, -, hs⟩ := exists_name_of_tokensFrom h
        exact absurd (List.append_eq_nil_iff.1 hs.symm).1 hn.1
      · intro h
        obtain ⟨digits, rest, -, hs⟩ := exists_digits_of_tokensFrom h
        simp at hs
  | succ k ih =>
      intro s p tokens hs
      constructor
      · intro h
        obtain ⟨n, rest, hn, hrest, rfl⟩ := exists_name_of_tokensFrom h
        rw [tokensFrom_name rest hn hrest] at h
        cases rest with
        | nil =>
            obtain rfl := Except.ok.inj h
            simpa using Scanned.name hn (.nil _)
        | cons c rest =>
            have hlen : rest.length ≤ k := by
              have := List.length_pos_iff.2 hn.1
              simp at hs
              omega
            have hc : c = '.' ∨ c = '[' := by
              have := detached_cons.1 hrest
              simp only [isNameChar, Bool.and_eq_false_iff, decide_eq_false_iff_not, not_not] at this
              exact this
            simp only at h
            rcases hc with rfl | rfl
            · obtain ⟨more, hmore, rfl⟩ := map_eq_ok.1 h
              exact .name hn ((ih rest _ more hlen).1 (by simpa using hmore))
            · obtain ⟨more, hmore, rfl⟩ := map_eq_ok.1 h
              exact .name hn ((ih rest _ more hlen).2 (by simpa using hmore))
      · intro h
        obtain ⟨digits, rest, hd, rfl⟩ := exists_digits_of_tokensFrom h
        rw [tokensFrom_index rest hd] at h
        cases rest with
        | nil =>
            obtain rfl := Except.ok.inj h
            exact .index hd (.nil _)
        | cons c rest =>
            have hlen : rest.length ≤ k := by
              simp at hs
              omega
            simp only at h
            split at h
            · rename_i hc
              obtain ⟨more, hmore, rfl⟩ := map_eq_ok.1 h
              rw [hc]
              exact .index hd ((ih rest _ more hlen).1 hmore)
            split at h
            · rename_i hc
              obtain ⟨more, hmore, rfl⟩ := map_eq_ok.1 h
              rw [hc]
              exact .index hd ((ih rest _ more hlen).2 hmore)
            · contradiction

/-- `tokensFrom` finds the tokens of every tail that spells some. -/
theorem Scanned.tokensFrom_eq {p : Nat} {tokens : List Token} {t : List Char}
    (h : Scanned p tokens t) :
    (∀ s, t = '.' :: s → tokensFrom .name p s = .ok tokens) ∧
      (∀ q s, p = q + 1 → t = '[' :: s → tokensFrom .index q s = .ok tokens) := by
  induction h with
  | nil => simp
  | @name p n tokens s hn h ih =>
      refine ⟨?_, by simp⟩
      rintro _ ⟨⟩
      rw [tokensFrom_name s hn h.detached]
      cases h with
      | nil => simp
      | name hn' h' => simpa [map_eq_ok] using ih.1 _ rfl
      | index hd' h' =>
          simpa [map_eq_ok] using ih.2 _ _ rfl rfl
  | @index p digits tokens s hd h ih =>
      refine ⟨by simp, ?_⟩
      rintro q _ ⟨⟩ ⟨⟩
      rw [tokensFrom_index s hd]
      cases h with
      | nil => rfl
      | name hn' h' => simpa [map_eq_ok] using ih.1 _ rfl
      | index hd' h' => simpa [map_eq_ok] using ih.2 _ _ rfl rfl

/-- Reading a key gives exactly its tokens. -/
theorem parse_eq_ok_iff {key : String} {tokens : List Token} :
    parse key = .ok tokens ↔ Scanned 0 tokens ('.' :: key.toList) :=
  ⟨fun h => (scanned_of_tokensFrom _ _ _ _ le_rfl).1 h, fun h => h.tokensFrom_eq.1 _ rfl⟩

theorem Scanned.spells {p : Nat} {tokens : List Token} {s : List Char} (h : Scanned p tokens s) :
    Spells (tokens.map Token.segment) s := by
  induction h with
  | nil => exact .nil
  | name hn _ ih => exact .name hn ih
  | index hd _ ih => exact .index hd ih

theorem Spells.exists_scanned {segments : List Segment} {s : List Char} (h : Spells segments s) :
    ∀ p, ∃ tokens, Scanned (p + 1) tokens s ∧ tokens.map Token.segment = segments := by
  induction h with
  | nil => exact fun p => ⟨[], .nil _, rfl⟩
  | @name n segments s hn _ ih =>
      intro p
      obtain ⟨tokens, hscan, rfl⟩ := ih (p + 1 + Text.byteLength n.toList)
      exact ⟨_, .name hn hscan, rfl⟩
  | @index digits segments s hd _ ih =>
      intro p
      obtain ⟨tokens, hscan, rfl⟩ := ih (p + 1 + Text.byteLength digits + 1)
      exact ⟨_, .index hd hscan, rfl⟩

end Key

end LayeredConfig
