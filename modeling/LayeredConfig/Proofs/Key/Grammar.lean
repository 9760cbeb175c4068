import LayeredConfig.Proofs.Key.Cursor

/-!
# The keys that can be read

A key is a name, and then names behind points and indices in brackets.  Reading accepts exactly these
texts, and what it gives tells where in the key every segment stands.

* `SpellsKey` — a key and the segments that it spells.
* `Scanned.of_append` — the tokens from one on are those of the text from there on.
* `Scanned.shift` — the same tokens at other positions.
* `standsAt_of_parse` — where the segments of a key stand.
* `parse_spec` — reading a key.
-/

namespace LayeredConfig.Key

/-- A key and the segments that it spells. -/
inductive SpellsKey : List Segment → List Char → Prop
  | mk {n : String} {segments : List Segment} {s : List Char} (hn : IsName n.toList)
      (h : Spells segments s) : SpellsKey (.name n :: segments) (n.toList ++ s)

theorem spellsKey_iff {segments : List Segment} {key : List Char} :
    SpellsKey segments key ↔ Spells segments ('.' :: key) := by
  constructor
  · rintro ⟨hn, h⟩
    exact .name hn h
  · intro h
    generalize ht : '.' :: key = t at h
    cases h with
    | nil => simp at ht
    | name hn h =>
        obtain ⟨-, rfl⟩ := List.cons.inj ht
        exact ⟨hn, h⟩
    | index => simp at ht

variable {key : String} {tokens before after : List Token} {t : Token} {s : List Char} {p d : Nat}

/-- A text can be read exactly if it spells some segments. -/
theorem exists_parse_iff :
    (∃ tokens, parse key = .ok tokens) ↔ ∃ segments, SpellsKey segments key.toList := by
  simp only [spellsKey_iff, ← segments?_eq_some_iff]
  constructor
  · rintro ⟨tokens, h⟩
    exact ⟨tokens.map Token.segment, by simp [segments?, h, Except.toOption]⟩
  · rintro ⟨segments, h⟩
    obtain ⟨tokens, hparse, -⟩ := exists_parse_of_segments? h
    exact ⟨tokens, hparse⟩

/-- The tokens from one on are those of the text from there on. -/
theorem Scanned.of_append (h : Scanned p (before ++ t :: after) s) :
    ∃ front tail, s = front ++ tail ∧ Scanned (p + Text.byteLength front) (t :: after) tail := by
  induction before generalizing p s with
  | nil => exact ⟨[], s, rfl, h⟩
  | cons u before ih =>
      cases h with
      | @name p n _ s hn h =>
          obtain ⟨front, tail, rfl, hscan⟩ := ih h
          refine ⟨'.' :: (n.toList ++ front), tail, by simp, ?_⟩
          have hpoint : ('.' : Char).utf8Size = 1 := rfl
          convert hscan using 1
          rw [Text.byteLength, Text.byteLength_append, hpoint]
          omega
      | @index p digits _ s hd h =>
          obtain ⟨front, tail, rfl, hscan⟩ := ih h
          refine ⟨'[' :: (digits ++ ']' :: front), tail, by simp, ?_⟩
          have hopen : ('[' : Char).utf8Size = 1 := rfl
          have hclose : (']' : Char).utf8Size = 1 := rfl
          convert hscan using 1
          rw [Text.byteLength, Text.byteLength_append, Text.byteLength, hopen, hclose]
          omega

/-- A token as it stands in a text that starts later in the key. -/
def Token.shift (d : Nat) (t : Token) : Token := { t with offset := t.offset - d }

@[simp] theorem Token.segment_shift (d : Nat) (t : Token) : (t.shift d).segment = t.segment := rfl

/-- The same tokens at other positions. -/
theorem Scanned.shift (h : Scanned (p + 1 + d) tokens s) :
    Scanned (p + 1) (tokens.map (Token.shift d)) s := by
  generalize hq : p + 1 + d = q at h
  induction h generalizing p with
  | nil => exact .nil _
  | @name q n tokens s hn h ih =>
      have hrest := ih (p := p + Text.byteLength n.toList + 1) (by omega)
      have hoffset : p + 1 = q - d := by omega
      rw [List.map_cons, Token.shift, hoffset]
      refine .name hn ?_
      convert hrest using 1
      omega
  | @index q digits tokens s hd h ih =>
      have hrest := ih (p := p + 1 + Text.byteLength digits + 1) (by omega)
      have hoffset : p = q - d := by omega
      rw [List.map_cons, Token.shift]
      simp only [hoffset]
      refine .index hd ?_
      convert hrest using 1
      omega

/-- Where a segment stands in a key: the text from its position on spells it and those behind it, and from
a name on it reads as the same tokens. -/
def StandsAt (key : String) (t : Token) (after : List Token) : Prop :=
  Text.from? t.offset key.toList = some t.remainder ∧
    match t.segment with
    | .name _ => parse (String.ofList t.remainder) = .ok ((t :: after).map (Token.shift t.offset))
    | .index _ => Spells ((t :: after).map Token.segment) t.remainder

theorem standsAt_name {key f : List Char} {n : String} (hkey : '.' :: key = f ++ '.' :: (n.toList ++ s))
    (hn : IsName n.toList) (h : Scanned (Text.byteLength f + Text.byteLength n.toList + 1) after s) :
    StandsAt (String.ofList key) ⟨.name n, Text.byteLength f, n.toList ++ s⟩ after := by
  have hpoint : ('.' : Char).utf8Size = 1 := rfl
  have hfrom : Text.from? (Text.byteLength f) key = some (n.toList ++ s) := by
    cases f with
    | nil =>
        obtain ⟨-, rfl⟩ := List.cons.inj hkey
        exact Text.from?_append [] _
    | cons c f =>
        obtain ⟨rfl, rfl⟩ := List.cons.inj hkey
        -- the point in front of the key is not part of it, that in front of the name is
        have hlength : Text.byteLength ('.' :: f) = Text.byteLength (f ++ ['.']) := by
          rw [Text.byteLength_append, Text.byteLength, Nat.add_comm]
          rfl
        have hbehind := Text.from?_append (f ++ ['.']) (n.toList ++ s)
        rw [List.append_assoc] at hbehind
        rw [hlength]
        exact hbehind
  refine ⟨by rwa [String.toList_ofList], ?_⟩
  have hshift : Scanned (0 + Text.byteLength n.toList + 1)
      (after.map (Token.shift (Text.byteLength f))) s := by
    refine Scanned.shift (p := 0 + Text.byteLength n.toList) ?_
    convert h using 1
    omega
  have hscan := Scanned.name hn hshift
  rw [parse_eq_ok_iff, String.toList_ofList, List.map_cons, Token.shift]
  simpa using hscan

theorem standsAt_index {key f digits : List Char} (hkey : '.' :: key = f ++ '[' :: (digits ++ ']' :: s))
    (hd : IsIndex digits) (hf : Text.byteLength f = p + 1)
    (h : Scanned (p + 1 + Text.byteLength digits + 2) after s) :
    StandsAt (String.ofList key) ⟨.index (indexValue digits), p, '[' :: (digits ++ ']' :: s)⟩ after := by
  cases f with
  | nil => simp at hkey
  | cons c f =>
      obtain ⟨rfl, rfl⟩ := List.cons.inj hkey
      have hpoint : ('.' : Char).utf8Size = 1 := rfl
      have hposition : p = Text.byteLength f := by
        rw [Text.byteLength, hpoint] at hf
        omega
      refine ⟨?_, ?_⟩
      · rw [String.toList_ofList, hposition]
        exact Text.from?_append _ _
      · exact Spells.index hd h.spells

/-- Every token of a key stands where its offset says. -/
theorem standsAt_of_parse (h : parse key = .ok (before ++ t :: after)) : StandsAt key t after := by
  obtain ⟨front, tail, hkey, hscan⟩ := (parse_eq_ok_iff.1 h).of_append
  rw [Nat.zero_add] at hscan
  obtain ⟨key, rfl⟩ : ∃ s, key = String.ofList s := ⟨key.toList, by simp⟩
  rw [String.toList_ofList] at hkey
  generalize hq : Text.byteLength front = q at hscan
  cases hscan with
  | name hn hrest =>
      subst hq
      exact standsAt_name hkey hn hrest
  | index hd hrest => exact standsAt_index hkey hd hq hrest

/-- Reading a key.  Exactly the texts of the grammar are keys; a reader that moves over the key by byte
positions always comes to the same result, without a cut that fails, and reports any problem for the key.
The segments are those that the key spells, and each of them stands where its offset says. -/
theorem parse_spec (key : String) :
    (∀ result, Cursor.Reads key Cursor.start result ↔ result = Cursor.reported key (parse key)) ∧
    ((∃ tokens, parse key = .ok tokens) ↔ ∃ segments, SpellsKey segments key.toList) ∧
    ∀ tokens, parse key = .ok tokens →
      SpellsKey (tokens.map Token.segment) key.toList ∧
      ∀ before t after, tokens = before ++ t :: after → StandsAt key t after := by
  refine ⟨fun _ => Cursor.reads_iff key, exists_parse_iff, fun tokens h => ⟨?_, ?_⟩⟩
  · exact spellsKey_iff.2 (parse_eq_ok_iff.1 h).spells
  · intro before t after hsplit
    rw [hsplit] at h
    exact standsAt_of_parse h

/-- The tokens of a key with a name of two bytes and an index with a leading zero. -/
def umlautTokens : List Token := [
  ⟨.name "ä", 0, "ä[07].b".toList⟩,
  ⟨.index 7, 2, "[07].b".toList⟩,
  ⟨.name "b", 7, "b".toList⟩]

theorem parse_spec_umlautKey :
    parse "ä[07].b" = .ok umlautTokens ∧
      StandsAt "ä[07].b" ⟨.index 7, 2, "[07].b".toList⟩ [⟨.name "b", 7, "b".toList⟩] ∧
        StandsAt "ä[07].b" ⟨.name "b", 7, "b".toList⟩ [] := by
  have hparse : parse "ä[07].b" = .ok umlautTokens := by cbv
  obtain ⟨-, -, htokens⟩ := parse_spec "ä[07].b"
  obtain ⟨-, hstands⟩ := htokens umlautTokens hparse
  exact ⟨hparse, hstands (umlautTokens.take 1) _ _ rfl, hstands (umlautTokens.take 2) _ _ rfl⟩

end LayeredConfig.Key
