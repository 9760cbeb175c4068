import LayeredConfig.Structure
import LayeredConfig.Proofs.Key.Plain
import Mathlib

/-!
# Reading a key by positions

Reading hands the rest of a key on from segment to segment.  A reader that keeps the whole key and moves a
byte position over it can go wrong in ways of its own: it may cut the text past its end or inside of a
character, step in front of its beginning, or never come to an end.  The cursor below is such a reader,
and each of these would leave it without a result.

* `Text.from?`, `Text.slice?`, `Text.byteAt?` — what stands at byte positions of a text.
* `readName_eq`, `readIndex_eq` — what one step gives where the rest of the key starts.
* `Cursor.Reads` — a run of the reader to its end.
* `reads_iff` — the cursor always has a result, and it is what `parse` gives.
-/

namespace LayeredConfig

namespace Text

/-- The text from a byte position on; there is none past the end or inside of a character. -/
def from? : Nat → List Char → Option (List Char)
  | 0, s => some s
  | _ + 1, [] => none
  | p + 1, c :: s => if c.utf8Size ≤ p + 1 then from? (p + 1 - c.utf8Size) s else none

/-- The text between two byte positions. -/
def slice? (start stop : Nat) (s : List Char) : Option (List Char) := do
  let whole ← from? start s
  let rest ← from? stop s
  if start ≤ stop then some (whole.take (whole.length - rest.length)) else none

/-- The byte at a position of the UTF-8 form of a text; there is none past the end. -/
def byteAt? (p : Nat) (s : List Char) : Option UInt8 := (s.flatMap String.utf8EncodeChar)[p]?

/-- The byte position of the first character that passes a test. -/
def position? (test : Char → Bool) : List Char → Option Nat
  | [] => none
  | c :: s => if test c then some 0 else (position? test s).map (c.utf8Size + ·)

theorem byteLength_append (s t : List Char) : byteLength (s ++ t) = byteLength s + byteLength t := by
  induction s with
  | nil => simp [byteLength]
  | cons c s ih => simp [byteLength, ih, Nat.add_assoc]

theorem from?_append (s t : List Char) : from? (byteLength s) (s ++ t) = some t := by
  induction s with
  | nil => cases t <;> rfl
  | cons c s ih =>
      have hpos := c.utf8Size_pos
      obtain ⟨p, hp⟩ : ∃ p, byteLength (c :: s) = p + 1 := ⟨byteLength (c :: s) - 1, by
        simp only [byteLength]
        omega⟩
      have hrest : p + 1 - c.utf8Size = byteLength s := by
        simp only [byteLength] at hp
        omega
      rw [hp, List.cons_append, from?, if_pos, hrest, ih]
      simp only [byteLength] at hp
      omega

theorem slice?_append (s t u : List Char) :
    slice? (byteLength s) (byteLength s + byteLength t) (s ++ (t ++ u)) = some t := by
  have hstop : from? (byteLength s + byteLength t) (s ++ (t ++ u)) = some u := by
    rw [← byteLength_append, ← List.append_assoc, from?_append]
  simp [slice?, from?_append, hstop]

theorem length_flatMap_utf8EncodeChar (s : List Char) :
    (s.flatMap String.utf8EncodeChar).length = byteLength s := by
  induction s with
  | nil => rfl
  | cons c s ih => rw [List.flatMap_cons, List.length_append, ih, String.length_utf8EncodeChar, byteLength]

theorem byteLength_pos {s : List Char} (h : s ≠ []) : 0 < byteLength s := by
  obtain ⟨c, s, rfl⟩ := List.exists_cons_of_ne_nil h
  have := c.utf8Size_pos
  simp only [byteLength]
  omega

theorem byteAt?_length (s : List Char) : byteAt? (byteLength s) s = none := by
  rw [byteAt?, List.getElem?_eq_none (length_flatMap_utf8EncodeChar s).le]

/-- A character of ASCII is recognised by its byte: no other character starts with it. -/
theorem head?_utf8EncodeChar_eq_iff {a : Char} (ha : a.toNat ≤ 127) (c : Char) :
    (String.utf8EncodeChar c).head? = some (UInt8.ofNat a.toNat) ↔ c = a := by
  have hnat : c = a ↔ c.val.toNat = a.toNat := by
    rw [← Char.toNat_inj]
    rfl
  rw [hnat]
  unfold String.utf8EncodeChar
  generalize c.val.toNat = v
  -- longer forms start with a byte of 192 or more
  dsimp only
  split_ifs <;>
    simp only [List.head?_cons, Option.some.injEq, ← UInt8.toNat_inj, UInt8.toNat_ofNat'] <;> omega

/-- The byte at which a character starts tells whether it is a given one of ASCII. -/
theorem exists_byteAt?_append (s : List Char) (c : Char) (t : List Char) :
    ∃ b, byteAt? (byteLength s) (s ++ c :: t) = some b ∧
      ∀ a : Char, a.toNat ≤ 127 → (b = UInt8.ofNat a.toNat ↔ c = a) := by
  obtain ⟨b, bs, hbytes⟩ : ∃ b bs, String.utf8EncodeChar c = b :: bs := by
    apply List.exists_cons_of_length_pos
    rw [String.length_utf8EncodeChar]
    exact c.utf8Size_pos
  refine ⟨b, ?_, fun a ha => ?_⟩
  · rw [byteAt?, List.flatMap_append, List.getElem?_append_right (length_flatMap_utf8EncodeChar s).le,
      length_flatMap_utf8EncodeChar, Nat.sub_self, List.flatMap_cons, hbytes]
    rfl
  · rw [← head?_utf8EncodeChar_eq_iff ha c, hbytes, List.head?_cons, Option.some.injEq]

theorem position?_eq (test : Char → Bool) (s : List Char) :
    position? test s =
      if s.dropWhile (fun c => !test c) = [] then none
      else some (byteLength (s.takeWhile fun c => !test c)) := by
  induction s with
  | nil => rfl
  | cons c s ih =>
      rw [position?, ih]
      by_cases hc : test c = true
      · simp [hc, byteLength]
      · by_cases hs : s.dropWhile (fun c => !test c) = [] <;> simp [hc, hs, byteLength]

end Text

namespace Key

open Structure (InvalidKey)

/-- A reader of a key: a byte position, and what must come next there, `none` once the key has been read. -/
structure Cursor where
  position : Nat
  pending : Option Expected

namespace Cursor

/-- What must come next by the byte behind a name. -/
def afterName : Option UInt8 → Option Expected
  | none => none
  | some b => if b = 46 then some .name else some .index

/-- Read the name at a position. -/
def readName (key : String) (start : Nat) : Option (Except InvalidKey ((Nat × Segment) × Cursor)) := do
  let rest ← Text.from? start key.toList
  let stop :=
    match Text.position? (fun c => !isNameChar c) rest with
    | none => Text.byteLength key.toList
    | some i => start + i
  if stop = start then some (.error ⟨key, .emptyName start⟩)
  else
    let name ← Text.slice? start stop key.toList
    let pending := afterName (Text.byteAt? stop key.toList)
    some (.ok ((start, .name (String.ofList name)), ⟨stop + 1, pending⟩))

/-- The number of some digits; one that does not fit 64 bits is not read at all. -/
def number? (digits : List Char) : Option Nat :=
  if indexValue digits < UInt64.size then some (indexValue digits) else none

/-- Go on behind the bracket that closes an index. -/
def behindIndex (key : String) (segment : Nat × Segment) (close : Nat) :
    Except InvalidKey ((Nat × Segment) × Cursor) :=
  match Text.byteAt? (close + 1) key.toList with
  | none => .ok (segment, ⟨close + 2, none⟩)
  | some b =>
    if b = 46 then .ok (segment, ⟨close + 2, some .name⟩)
    else if b = 91 then .ok (segment, ⟨close + 2, some .index⟩)
    else .error ⟨key, .unexpectedAfterIndex (close + 1)⟩

/-- Read the index whose bracket stands in front of a position. -/
def readIndex (key : String) (position : Nat) :
    Option (Except InvalidKey ((Nat × Segment) × Cursor)) := do
  guard (0 < position)
  let rest ← Text.from? position key.toList
  match Text.position? (fun c => c = ']') rest with
  | none => some (.error ⟨key, .unterminatedIndex⟩)
  | some i =>
    let close := position + i
    let digits ← Text.slice? position close key.toList
    if digits.isEmpty then some (.error ⟨key, .emptyIndex⟩)
    else if !digits.all Text.isDigit then some (.error ⟨key, .nonNumericIndex digits⟩)
    else
      match (number? digits).filter (· ≤ maxIndex) with
      | none => some (.error ⟨key, .indexOutOfRange⟩)
      | some index => some (behindIndex key (position - 1, .index index) close)

/-- Read the next segment, if there is one. -/
def next? (key : String) (c : Cursor) : Option (Except InvalidKey (Option ((Nat × Segment) × Cursor))) :=
  match c.pending with
  | none => some (.ok none)
  | some .name => (readName key c.position).map (Except.map some)
  | some .index => (readIndex key c.position).map (Except.map some)

/-- Reading from a cursor on comes to an end: with an error, or with the segments, each with its position.
There is no result where a step has none, or where the steps never end. -/
inductive Reads (key : String) : Cursor → Except InvalidKey (List (Nat × Segment)) → Prop
  | done {c : Cursor} (h : next? key c = some (.ok none)) : Reads key c (.ok [])
  | failed {c : Cursor} {e : InvalidKey} (h : next? key c = some (.error e)) : Reads key c (.error e)
  | segment {c c' : Cursor} {found : Nat × Segment} {result : Except InvalidKey (List (Nat × Segment))}
      (h : next? key c = some (.ok (some (found, c')))) (hrest : Reads key c' result) :
      Reads key c (result.map (found :: ·))

/-- The cursor at the start of a key. -/
def start : Cursor := ⟨0, some .name⟩

/-- What a cursor reports of the tokens of a key. -/
def reported (key : String) : Except Problem (List Token) → Except InvalidKey (List (Nat × Segment))
  | .error problem => .error ⟨key, problem⟩
  | .ok tokens => .ok (tokens.map fun t => (t.offset, t.segment))

variable {key : String} {f s : List Char}

/-- What must come next in front of the rest of a key. -/
def pendingBefore : List Char → Option Expected
  | [] => none
  | c :: _ => if c = '.' then some .name else some .index

theorem afterName_byteAt? (f s : List Char) :
    afterName (Text.byteAt? (Text.byteLength f) (f ++ s)) = pendingBefore s := by
  cases s with
  | nil =>
      rw [List.append_nil, Text.byteAt?_length]
      rfl
  | cons c s =>
      obtain ⟨b, hb, hchar⟩ := Text.exists_byteAt?_append f c s
      have hpoint : b = 46 ↔ c = '.' := hchar '.' (by decide)
      rw [hb, afterName, pendingBefore]
      simp only [hpoint]

/-- Reading a name takes what stands in front of the first separator. -/
theorem readName_eq (h : key.toList = f ++ s) :
    readName key (Text.byteLength f) =
      some (if stem s = [] then .error ⟨key, .emptyName (Text.byteLength f)⟩
        else .ok ((Text.byteLength f, .name (String.ofList (stem s))),
          ⟨Text.byteLength f + Text.byteLength (stem s) + 1, pendingBefore (behindStem s)⟩)) := by
  have hstop : (match Text.position? (fun c => !isNameChar c) s with
      | none => Text.byteLength (f ++ s)
      | some i => Text.byteLength f + i) = Text.byteLength f + Text.byteLength (stem s) := by
    simp only [Text.position?_eq, Bool.not_not]
    rw [← behindStem, ← stem]
    by_cases hs : behindStem s = []
    · -- the name goes on to the end of the key
      have hstem : stem s = s := by simpa [hs] using stem_append_behindStem s
      rw [if_pos hs, hstem, Text.byteLength_append]
    · rw [if_neg hs]
  have hslice := Text.slice?_append f (stem s) (behindStem s)
  have hbyte := afterName_byteAt? (f ++ stem s) (behindStem s)
  rw [List.append_assoc, Text.byteLength_append, stem_append_behindStem] at hbyte
  rw [stem_append_behindStem] at hslice
  rw [readName, h, Text.from?_append]
  simp only [Option.bind_eq_bind, Option.bind_some, hstop, hslice, hbyte]
  by_cases hs : stem s = []
  · simp [hs, Text.byteLength]
  · have hlength : Text.byteLength f + Text.byteLength (stem s) ≠ Text.byteLength f := by
      have := Text.byteLength_pos hs
      omega
    rw [if_neg hlength, if_neg hs]

theorem filter_number? (digits : List Char) :
    (number? digits).filter (· ≤ maxIndex) =
      if maxIndex < indexValue digits then none else some (indexValue digits) := by
  unfold number? maxIndex UInt64.size
  split_ifs
  · simp
    omega
  · simp
    omega
  · rfl
  · omega

/-- Why the text between brackets is no index. -/
def indexProblem (digits : List Char) : Option Problem :=
  if digits.isEmpty then some .emptyIndex
  else if !digits.all Text.isDigit then some (.nonNumericIndex digits)
  else if maxIndex < indexValue digits then some .indexOutOfRange
  else none

theorem indexProblem_eq_none_iff {digits : List Char} : indexProblem digits = none ↔ IsIndex digits := by
  unfold indexProblem IsIndex
  constructor
  · intro h
    split_ifs at h with hempty hall hmax
    exact ⟨by simpa using hempty, by simpa using hall, by omega⟩
  · rintro ⟨hne, hall, hmax⟩
    rw [if_neg (by simpa using hne), if_neg (by simpa using hall), if_neg (by omega)]

/-- Reading an index takes what stands in front of the first closing bracket. -/
theorem readIndex_eq (h : key.toList = f ++ '[' :: s) :
    readIndex key (Text.byteLength f + 1) =
      some (if s.dropWhile (· ≠ ']') = [] then .error ⟨key, .unterminatedIndex⟩
        else
          match indexProblem (s.takeWhile (· ≠ ']')) with
          | some problem => .error ⟨key, problem⟩
          | none => behindIndex key (Text.byteLength f, .index (indexValue (s.takeWhile (· ≠ ']'))))
              (Text.byteLength f + 1 + Text.byteLength (s.takeWhile (· ≠ ']')))) := by
  have hopen : Text.byteLength f + 1 = Text.byteLength (f ++ ['[']) := by
    rw [Text.byteLength_append]
    rfl
  have hkey : key.toList = (f ++ ['[']) ++ s := by simpa using h
  have hslice := Text.slice?_append (f ++ ['[']) (s.takeWhile (· ≠ ']')) (s.dropWhile (· ≠ ']'))
  rw [List.takeWhile_append_dropWhile, ← hopen, ← hkey] at hslice
  have hfrom := Text.from?_append (f ++ ['[']) s
  rw [← hopen, ← hkey] at hfrom
  have hguard : (guard (0 < Text.byteLength f + 1) : Option Unit) = some () := by simp
  rw [readIndex, hfrom, hguard]
  simp only [Option.bind_eq_bind, Option.bind_some, Text.position?_eq, ← decide_not]
  by_cases hclose : s.dropWhile (· ≠ ']') = []
  · simp only [if_pos hclose]
  · simp only [if_neg hclose, hslice, Option.bind_some, filter_number?, indexProblem]
    split_ifs <;> rfl

/-- Reporting what a segment and the tokens behind it give. -/
theorem reported_map (key : String) (t : Token) (r : Except Problem (List Token)) :
    reported key (r.map (t :: ·)) = (reported key r).map ((t.offset, t.segment) :: ·) := by
  cases r <;> rfl

theorem reported_error (key : String) (problem : Problem) :
    reported key (.error problem) = .error ⟨key, problem⟩ := rfl

/-- Every step has one outcome, and so has reading. -/
theorem Reads.unique {c : Cursor} {r r' : Except InvalidKey (List (Nat × Segment))} (h : Reads key c r)
    (h' : Reads key c r') : r = r' := by
  induction h generalizing r' with
  | done h =>
      cases h' with
      | done h' => rfl
      | failed h' | segment h' => simp [h] at h'
  | failed h =>
      cases h' with
      | failed h' =>
          rw [h] at h'
          simpa using h'
      | done h' | segment h' => simp [h] at h'
  | segment h _ ih =>
      cases h' with
      | segment h' hrest =>
          rw [h] at h'
          simp only [Option.some.injEq, Except.ok.injEq, Prod.mk.injEq] at h'
          obtain ⟨rfl, rfl⟩ := h'
          rw [ih hrest]
      | done h' | failed h' => simp [h] at h'

/-! ## Steps -/

theorem detached_cons_iff {c : Char} {t : List Char} : Detached (c :: t) ↔ c = '.' ∨ c = '[' := by
  rw [detached_cons, isNameChar, Bool.and_eq_false_iff, decide_eq_false_iff_not,
    decide_eq_false_iff_not, not_not, not_not]

instance : DecidablePred Detached := fun t =>
  inferInstanceAs (Decidable (∀ c ∈ t.head?, isNameChar c = false))

/-- The tokens of a text behind a segment that ends at a position. -/
def tokensBehind (p : Nat) : List Char → Except Problem (List Token)
  | [] => .ok []
  | c :: rest => if c = '.' then tokensFrom .name (p + 1) rest else tokensFrom .index p rest

theorem tokensFrom_name_eq {n : String} {t : List Char} (p : Nat) (hn : IsName n.toList)
    (ht : Detached t) :
    tokensFrom .name p (n.toList ++ t) =
      (tokensBehind (p + Text.byteLength n.toList) t).map (⟨.name n, p, n.toList ++ t⟩ :: ·) := by
  rw [tokensFrom_name t hn ht]
  cases t with
  | nil =>
      rw [List.append_nil]
      rfl
  | cons c rest => rfl

theorem tokensFrom_index_eq {digits t : List Char} (p : Nat) (hd : IsIndex digits) (ht : Detached t) :
    tokensFrom .index p (digits ++ ']' :: t) =
      (tokensBehind (p + 1 + Text.byteLength digits + 1) t).map
        (⟨.index (indexValue digits), p, '[' :: (digits ++ ']' :: t)⟩ :: ·) := by
  rw [tokensFrom_index t hd]
  cases t with
  | nil => rfl
  | cons c rest =>
      unfold tokensBehind
      rcases detached_cons_iff.1 ht with rfl | rfl
      · simp
      · simp

theorem tokensFrom_index_of_not_detached {digits t : List Char} (p : Nat) (hd : IsIndex digits)
    (ht : ¬ Detached t) :
    tokensFrom .index p (digits ++ ']' :: t) =
      .error (.unexpectedAfterIndex (p + 1 + Text.byteLength digits + 1)) := by
  rw [tokensFrom_index t hd]
  cases t with
  | nil => exact absurd detached_nil ht
  | cons c rest =>
      rw [detached_cons_iff, not_or] at ht
      simp [ht.1, ht.2]

theorem behindIndex_eq {g t : List Char} (segment : Nat × Segment) (h : key.toList = g ++ ']' :: t) :
    behindIndex key segment (Text.byteLength g) =
      if Detached t then .ok (segment, ⟨Text.byteLength g + 2, pendingBefore t⟩)
      else .error ⟨key, .unexpectedAfterIndex (Text.byteLength g + 1)⟩ := by
  have hclose : Text.byteLength g + 1 = Text.byteLength (g ++ [']']) := by
    rw [Text.byteLength_append]
    rfl
  have hkey : key.toList = (g ++ [']']) ++ t := by simpa using h
  rw [behindIndex, hclose, hkey]
  cases t with
  | nil => simp [Text.byteAt?_length, detached_nil, pendingBefore]
  | cons c t =>
      obtain ⟨b, hb, hchar⟩ := Text.exists_byteAt?_append (g ++ [']']) c t
      have hpoint : b = 46 ↔ c = '.' := hchar '.' (by decide)
      have hopen : b = 91 ↔ c = '[' := hchar '[' (by decide)
      simp only [hb, hpoint, hopen, detached_cons_iff, pendingBefore]
      by_cases hc : c = '.'
      · simp [hc]
      · simp [hc]

theorem tokensFrom_of_no_close {p : Nat} (h : s.dropWhile (· ≠ ']') = []) :
    tokensFrom .index p s = .error .unterminatedIndex := by
  rw [tokensFrom]
  split
  · rfl
  · rename_i hdrop
    rw [h] at hdrop
    contradiction

theorem tokensFrom_of_indexProblem {p : Nat} {digits t : List Char} {problem : Problem}
    (htake : s.takeWhile (· ≠ ']') = digits) (hdrop : s.dropWhile (· ≠ ']') = ']' :: t)
    (h : indexProblem digits = some problem) : tokensFrom .index p s = .error problem := by
  rw [tokensFrom]
  split
  · rename_i hnone
    rw [hdrop] at hnone
    contradiction
  · rw [htake]
    unfold indexProblem at h
    split_ifs at h with hempty hall hmax
    · obtain rfl := Option.some.inj h
      rw [if_pos hempty]
    · obtain rfl := Option.some.inj h
      rw [if_neg hempty, if_pos hall]
    · obtain rfl := Option.some.inj h
      rw [if_neg hempty, if_neg hall, if_pos hmax]

theorem exists_behind_close (h : s.dropWhile (· ≠ ']') ≠ []) :
    ∃ t, s.dropWhile (· ≠ ']') = ']' :: t := by
  obtain ⟨c, t, hdrop⟩ := List.exists_cons_of_ne_nil h
  have hhead := List.head?_dropWhile_not (· ≠ ']') s
  rw [hdrop] at hhead
  obtain rfl : c = ']' := by simpa using hhead
  exact ⟨t, hdrop⟩

/-- The cursor goes on behind a segment if it does so in front of every shorter rest. -/
theorem reads_behind {k : Nat}
    (ih : ∀ f s : List Char, s.length < k →
      (key.toList = f ++ s →
        Reads key ⟨Text.byteLength f, some .name⟩
          (reported key (tokensFrom .name (Text.byteLength f) s))) ∧
      (key.toList = f ++ '[' :: s →
        Reads key ⟨Text.byteLength f + 1, some .index⟩
          (reported key (tokensFrom .index (Text.byteLength f) s))))
    {g t : List Char} (ht : Detached t) (hlength : t.length ≤ k) (h : key.toList = g ++ t) :
    Reads key ⟨Text.byteLength g + 1, pendingBefore t⟩
      (reported key (tokensBehind (Text.byteLength g) t)) := by
  cases t with
  | nil => exact .done rfl
  | cons c rest =>
      have hrest : rest.length < k := by
        rw [List.length_cons] at hlength
        omega
      unfold pendingBefore tokensBehind
      rcases detached_cons_iff.1 ht with rfl | rfl
      · have hname := (ih (g ++ ['.']) rest hrest).1 (by simpa using h)
        have hpoint : Text.byteLength ['.'] = 1 := rfl
        rw [Text.byteLength_append, hpoint] at hname
        simpa using hname
      · have hindex := (ih g rest hrest).2 h
        simpa using hindex

/-- A cursor at any segment reports what the tokens from there on are. -/
theorem reads_from (k : Nat) :
    ∀ f s : List Char, s.length < k →
      (key.toList = f ++ s →
        Reads key ⟨Text.byteLength f, some .name⟩
          (reported key (tokensFrom .name (Text.byteLength f) s))) ∧
      (key.toList = f ++ '[' :: s →
        Reads key ⟨Text.byteLength f + 1, some .index⟩
          (reported key (tokensFrom .index (Text.byteLength f) s))) := by
  -- every segment leaves a shorter rest, so the induction is on a bound for the length
  induction k with
  | zero =>
      intro f s hs
      omega
  | succ k ih =>
      intro f s hs
      constructor
      · intro h
        have hnext : next? key ⟨Text.byteLength f, some .name⟩ =
            (readName key (Text.byteLength f)).map (Except.map some) := rfl
        rw [readName_eq h] at hnext
        by_cases hstem : stem s = []
        · rw [if_pos hstem] at hnext
          have hempty : (s.takeWhile isNameChar).isEmpty = true := List.isEmpty_iff.2 hstem
          rw [tokensFrom, if_pos hempty, reported_error]
          exact .failed hnext
        · rw [if_neg hstem] at hnext
          have hn : IsName (String.ofList (stem s)).toList := by
            rw [String.toList_ofList]
            exact isName_stem hstem
          have htokens := tokensFrom_name_eq (Text.byteLength f) hn (detached_behindStem s)
          have hsplit := stem_append_behindStem s
          have hshorter : (behindStem s).length ≤ k := by
            have hlength := congrArg List.length hsplit
            have hpos := List.length_pos_iff.2 hstem
            rw [List.length_append] at hlength
            omega
          have hkey : key.toList = (f ++ stem s) ++ behindStem s := by
            rw [List.append_assoc, hsplit, h]
          have hbehind := reads_behind ih (detached_behindStem s) hshorter hkey
          rw [Text.byteLength_append] at hbehind
          rw [String.toList_ofList, hsplit] at htokens
          rw [htokens, reported_map]
          exact .segment hnext hbehind
      · intro h
        have hnext : next? key ⟨Text.byteLength f + 1, some .index⟩ =
            (readIndex key (Text.byteLength f + 1)).map (Except.map some) := rfl
        rw [readIndex_eq h] at hnext
        by_cases hclose : s.dropWhile (· ≠ ']') = []
        · rw [if_pos hclose] at hnext
          rw [tokensFrom_of_no_close hclose, reported_error]
          exact .failed hnext
        rw [if_neg hclose] at hnext
        obtain ⟨t, hdrop⟩ := exists_behind_close hclose
        obtain ⟨digits, htake⟩ : ∃ digits, s.takeWhile (· ≠ ']') = digits := ⟨_, rfl⟩
        have hsplit := List.takeWhile_append_dropWhile (p := (· ≠ ']')) (l := s)
        rw [htake, hdrop] at hsplit
        rw [htake] at hnext
        cases hproblem : indexProblem digits with
        | some problem =>
            rw [hproblem] at hnext
            rw [tokensFrom_of_indexProblem htake hdrop hproblem, reported_error]
            exact .failed hnext
        | none =>
            have hd := indexProblem_eq_none_iff.1 hproblem
            obtain rfl := hsplit
            have hkey : key.toList = (f ++ '[' :: digits) ++ ']' :: t := by simpa using h
            have hclosed : Text.byteLength (f ++ '[' :: digits) =
                Text.byteLength f + 1 + Text.byteLength digits := by
              rw [Text.byteLength_append, Nat.add_assoc]
              rfl
            have hbehind := behindIndex_eq (Text.byteLength f, .index (indexValue digits)) hkey
            rw [hclosed] at hbehind
            rw [hproblem, hbehind] at hnext
            by_cases ht : Detached t
            · rw [if_pos ht] at hnext
              have hshorter : t.length ≤ k := by
                rw [List.length_append, List.length_cons] at hs
                omega
              have hrest := reads_behind ih ht hshorter (g := (f ++ '[' :: digits) ++ [']']) (by simpa using hkey)
              have hone : Text.byteLength [']'] = 1 := rfl
              rw [Text.byteLength_append, hclosed, hone] at hrest
              rw [tokensFrom_index_eq (Text.byteLength f) hd ht, reported_map]
              exact .segment hnext hrest
            · rw [if_neg ht] at hnext
              rw [tokensFrom_index_of_not_detached (Text.byteLength f) hd ht, reported_error]
              exact .failed hnext

/-- The cursor always comes to an end without getting stuck, and gives what is read of the key; whatever
problem it meets is reported for the key. -/
theorem reads_iff (key : String) {result : Except InvalidKey (List (Nat × Segment))} :
    Reads key start result ↔ result = reported key (parse key) := by
  have hreads : Reads key start (reported key (parse key)) :=
    (reads_from (key.toList.length + 1) [] key.toList (Nat.lt_succ_self _)).1 rfl
  constructor
  · intro h
    exact h.unique hreads
  · rintro rfl
    exact hreads

end Cursor

end Key

end LayeredConfig
