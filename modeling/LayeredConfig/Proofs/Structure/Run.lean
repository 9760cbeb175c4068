import LayeredConfig.Proofs.Structure.Clash

/-!
# Building as a run of insertions

`insertAll` goes through the properties once.  Every document on the way is normal, and while no index
is written with a leading zero the scalars that it holds are exactly the properties inserted so far:
each property is held under its own key.

* `insertAll_append` — a run over two lists of properties is one run after the other.
* `exists_clash_of_insertEntry_eq_error` — a readable key that cannot be inserted clashes with an earlier
  one.
* `exists_clash_of_insertAll_eq_error` — a run of readable keys fails at a key that clashes with an
  earlier one.
* `held_insertAll` — what is held after a run.
* `held_build` — what a built document holds.
-/

namespace LayeredConfig.Structure

open Key (Plain Segment Spells lead)
open Key.text (continued)
open Node (Normal)

variable {m m' : NodeMap} {entries : List (String × Value)}

/-- One insertion of a run: the key is read and then inserted. -/
def insertEntry (m : NodeMap) (e : String × Value) : Except Key.Problem NodeMap :=
  (Key.parse e.1).bind (insertKey m e.2)

theorem insertEntry_eq_ok_iff {e : String × Value} :
    insertEntry m e = .ok m' ↔
      ∃ tokens, Key.parse e.1 = .ok tokens ∧ insertKey m e.2 tokens = .ok m' := by
  unfold insertEntry
  cases Key.parse e.1 <;> simp [Except.bind]

theorem insertAll_cons (m : NodeMap) (e : String × Value) (rest : List (String × Value)) :
    insertAll m (e :: rest) =
      match insertEntry m e with
      | .ok m' => insertAll m' rest
      | .error problem => .error ⟨e.1, problem⟩ := rfl

theorem insertAll_cons_eq_ok_iff {e : String × Value} {rest : List (String × Value)} :
    insertAll m (e :: rest) = .ok m' ↔
      ∃ m₁, insertEntry m e = .ok m₁ ∧ insertAll m₁ rest = .ok m' := by
  rw [insertAll_cons]
  cases insertEntry m e <;> simp

/-- A run over two lists of properties is one run after the other. -/
theorem insertAll_append (m : NodeMap) (a b : List (String × Value)) :
    insertAll m (a ++ b) = (insertAll m a).bind fun m' => insertAll m' b := by
  induction a generalizing m with
  | nil => rfl
  | cons e a ih =>
      rw [List.cons_append, insertAll_cons, insertAll_cons]
      cases insertEntry m e with
      | ok m' => exact ih m'
      | error problem => rfl

theorem insertAll_append_eq_ok_iff {a b : List (String × Value)} :
    insertAll m (a ++ b) = .ok m' ↔ ∃ m₁, insertAll m a = .ok m₁ ∧ insertAll m₁ b = .ok m' := by
  rw [insertAll_append]
  cases insertAll m a <;> simp [Except.bind]

/-- Where a run fails: the properties before are inserted, and the next one is not. -/
theorem exists_of_insertAll_eq_error {x : InvalidKey} (h : insertAll m entries = .error x) :
    ∃ before e after m₁ problem, entries = before ++ e :: after ∧ insertAll m before = .ok m₁ ∧
      insertEntry m₁ e = .error problem ∧ x = ⟨e.1, problem⟩ := by
  induction entries generalizing m with
  | nil => simp [insertAll] at h
  | cons e rest ih =>
      rw [insertAll_cons] at h
      cases hfirst : insertEntry m e with
      | error problem =>
          simp only [hfirst] at h
          exact ⟨[], e, rest, m, problem, rfl, rfl, hfirst, (Except.error.inj h).symm⟩
      | ok m₁ =>
          simp only [hfirst] at h
          obtain ⟨before, e', after, m₂, problem, rfl, hbefore, hfail, hx⟩ := ih h
          exact ⟨e :: before, e', after, m₂, problem, rfl,
            insertAll_cons_eq_ok_iff.2 ⟨m₁, hfirst, hbefore⟩, hfail, hx⟩

theorem insertEntry_inserted {e : String × Value} (hm : Normal (.map m))
    (h : insertEntry m e = .ok m') :
    ∃ segments, Spells segments ('.' :: e.1.toList) ∧
      Inserted (.map m) (.map m') e.2 segments ('.' :: e.1.toList) := by
  obtain ⟨tokens, hparse, hinsert⟩ := insertEntry_eq_ok_iff.1 h
  have hscan := Key.parse_eq_ok_iff.1 hparse
  exact ⟨_, hscan.spells, insertKey_inserted hm hscan hinsert⟩

theorem normal_insertAll (hm : Normal (.map m)) (h : insertAll m entries = .ok m') :
    Normal (.map m') := by
  induction entries generalizing m with
  | nil =>
      obtain rfl := Except.ok.inj h
      exact hm
  | cons e rest ih =>
      obtain ⟨m₁, hfirst, hrest⟩ := insertAll_cons_eq_ok_iff.1 h
      obtain ⟨segments, -, hinserted⟩ := insertEntry_inserted hm hfirst
      exact ih hinserted.normal hrest

theorem normal_build {flat : Properties} (h : build flat = .ok m) : Normal (.map m) :=
  normal_insertAll Node.normal_empty_map h

/-! ## Where scalars come from -/

theorem Lands.spells {n n' : Node} {v : Value} {segments : List Segment} {s t : List Char}
    (h : Lands n n' v segments s t) (hs : ∀ g ∈ segments, Key.IsSegment g) : Spells segments t := by
  cases h with
  | exact _ => exact Key.spells_continued hs
  | @compound p x r u c hsegments hr hsuffix hspells hc ho =>
      rw [hsegments, ← List.singleton_append, ← List.append_assoc] at hs ⊢
      have hbase := Key.spells_continued fun g hg => hs g (List.mem_append_left r hg)
      exact hbase.append hspells

/-- One insertion of a run, seen through the scalars: some text of the segments of the key is written. -/
theorem updates_of_insertEntry {e : String × Value} (hm : Normal (.map m))
    (h : insertEntry m e = .ok m') :
    ∃ segments t, Key.segments? e.1 = some segments ∧ Spells segments t ∧ Normal (.map m') ∧
      Updates (.map m) (.map m') t e.2 := by
  obtain ⟨segments, hspells, hinserted⟩ := insertEntry_inserted hm h
  obtain ⟨t, hlands, hupdate⟩ := hinserted.update
  exact ⟨segments, t, Key.segments?_eq_some_iff.2 hspells, hlands.spells hspells.isSegment,
    hinserted.normal, hupdate⟩

/-- Every scalar after a run has been there before, or it is the value of a property, under a text of
the segments of its key. -/
theorem held_insertAll_imp (hm : Normal (.map m)) (h : insertAll m entries = .ok m') {t : List Char}
    {w : Value} (ht : (Node.map m').Held t w) :
    (∃ e ∈ entries, ∃ segments, Key.segments? e.1 = some segments ∧ Spells segments t ∧ w = e.2) ∨
      (Node.map m).Held t w := by
  induction entries generalizing m with
  | nil =>
      obtain rfl := Except.ok.inj h
      exact .inr ht
  | cons e rest ih =>
      obtain ⟨m₁, hfirst, hrest⟩ := insertAll_cons_eq_ok_iff.1 h
      obtain ⟨segments, s, hsegments, hspells, hnormal, hupdate⟩ := updates_of_insertEntry hm hfirst
      rcases ih hnormal hrest with ⟨e', he', hfrom⟩ | hheld
      · exact .inl ⟨e', List.mem_cons_of_mem e he', hfrom⟩
      · rcases (hupdate t w).1 hheld with ⟨rfl, rfl⟩ | ⟨-, hold⟩
        · exact .inl ⟨e, List.mem_cons_self, segments, hsegments, hspells, rfl⟩
        · exact .inr hold

/-- A text under which a scalar is held stays one. -/
theorem exists_held_insertAll (hm : Normal (.map m)) (h : insertAll m entries = .ok m')
    {t : List Char} {w : Value} (ht : (Node.map m).Held t w) : ∃ w', (Node.map m').Held t w' := by
  induction entries generalizing m w with
  | nil =>
      obtain rfl := Except.ok.inj h
      exact ⟨w, ht⟩
  | cons e rest ih =>
      obtain ⟨m₁, hfirst, hrest⟩ := insertAll_cons_eq_ok_iff.1 h
      obtain ⟨-, s, -, -, hnormal, hupdate⟩ := updates_of_insertEntry hm hfirst
      by_cases hts : t = s
      · subst hts
        exact ih hnormal hrest hupdate.held
      · exact ih hnormal hrest ((hupdate t w).2 (.inr ⟨hts, ht⟩))

/-- After a run something is held for every property, under a text of the segments of its key. -/
theorem exists_held_of_mem (hm : Normal (.map m)) (h : insertAll m entries = .ok m')
    {e : String × Value} (he : e ∈ entries) :
    ∃ segments t w, Key.segments? e.1 = some segments ∧ Spells segments t ∧
      (Node.map m').Held t w := by
  obtain ⟨before, after, rfl⟩ := List.append_of_mem he
  obtain ⟨m₁, hbefore, hrest⟩ := insertAll_append_eq_ok_iff.1 h
  obtain ⟨m₂, hfirst, hafter⟩ := insertAll_cons_eq_ok_iff.1 hrest
  obtain ⟨segments, t, hsegments, hspells, hnormal, hupdate⟩ :=
    updates_of_insertEntry (normal_insertAll hm hbefore) hfirst
  obtain ⟨w, hheld⟩ := exists_held_insertAll hnormal hafter hupdate.held
  exact ⟨segments, t, w, hsegments, hspells, hheld⟩

/-! ## Where a run fails -/

/-- The segments of the keys that can be read. -/
def keySegments (entries : List (String × Value)) : List (List Segment) :=
  entries.filterMap fun e => Key.segments? e.1

theorem mem_keySegments {segments : List Segment} :
    segments ∈ keySegments entries ↔ ∃ e ∈ entries, Key.segments? e.1 = some segments :=
  List.mem_filterMap

theorem mem_keySegments_append_left {segments : List Segment} {a : List (String × Value)}
    (h : segments ∈ keySegments a) (b : List (String × Value)) :
    segments ∈ keySegments (a ++ b) := by
  rw [keySegments, List.filterMap_append]
  exact List.mem_append_left _ h

theorem isSegment_of_mem_keySegments {segments : List Segment}
    (h : segments ∈ keySegments entries) : ∀ g ∈ segments, Key.IsSegment g := by
  obtain ⟨e, -, he⟩ := mem_keySegments.1 h
  exact (Key.segments?_eq_some_iff.1 he).isSegment

/-- Two keys lead to the element at an index behind `p`, and go on differently there. -/
def Clash (keys : List (List Segment)) (p : List Segment) (i : Nat) : Prop :=
  ∃ r r', p ++ .index i :: r ∈ keys ∧ p ++ .index i :: r' ∈ keys ∧ lead r ≠ lead r'

theorem insertEntry_fails_iff {e : String × Value} {segments : List Segment}
    (hs : Key.segments? e.1 = some segments) :
    (∃ problem, insertEntry m e = .error problem) ↔ Clashes (.map m) segments := by
  obtain ⟨tokens, hparse, rfl⟩ := Key.exists_parse_of_segments? hs
  rw [← insertKey_fails_iff (Key.parse_eq_ok_iff.1 hparse) e.2, insertEntry, hparse]
  rfl

/-- A readable key that cannot be inserted behind others clashes with one of them: it shares an index with
the key and goes on differently behind it. -/
theorem exists_clash_of_insertEntry_eq_error {before : List (String × Value)} {e : String × Value}
    {segments : List Segment} {problem : Key.Problem} (hbefore : insertAll [] before = .ok m)
    (hsegments : Key.segments? e.1 = some segments) (h : insertEntry m e = .error problem) :
    ∃ p i r r' c, segments = p ++ .index i :: r ∧ p ++ .index i :: r' ∈ keySegments before ∧
      lead r' ≠ lead r ∧ (Node.map m).at? (p ++ [.index i]) = some c := by
  have hnormal := normal_insertAll Node.normal_empty_map hbefore
  obtain ⟨p, i, r, c, t, w, rfl, hc, hheld, hdetached, hlead⟩ :=
    ((insertEntry_fails_iff hsegments).1 ⟨problem, h⟩).exists_held hnormal
  rcases held_insertAll_imp Node.normal_empty_map hbefore hheld with
    ⟨e', he', segments', hsegments', hspells, -⟩ | hempty
  · have hvalid := (Key.segments?_eq_some_iff.1 hsegments).isSegment
    rw [← List.singleton_append, ← List.append_assoc] at hvalid
    obtain ⟨r', rfl, hr'⟩ :=
      hspells.of_continued_append (fun g hg => hvalid g (List.mem_append_left r hg)) hdetached
    have hkeyed : p ++ .index i :: r' ∈ keySegments before :=
      mem_keySegments.2 ⟨e', he', by simpa using hsegments'⟩
    exact ⟨p, i, r, r', c, rfl, hkeyed, by rwa [← hr'.head?], hc⟩
  · simp [Node.held_map] at hempty

/-- Where a run of readable keys fails, an earlier key shares an index with the key and goes on
differently behind it. -/
theorem exists_clash_of_insertAll_eq_error {x : InvalidKey}
    (hread : ∀ e ∈ entries, ∃ segments, Key.segments? e.1 = some segments)
    (h : insertAll [] entries = .error x) :
    ∃ before e after m₁ p i r r' c, entries = before ++ e :: after ∧ e.1 = x.key ∧
      Key.segments? e.1 = some (p ++ .index i :: r) ∧ p ++ .index i :: r' ∈ keySegments before ∧
        lead r' ≠ lead r ∧ insertAll [] before = .ok m₁ ∧
          (Node.map m₁).at? (p ++ [.index i]) = some c := by
  obtain ⟨before, e, after, m₁, problem, rfl, hbefore, hfail, rfl⟩ :=
    exists_of_insertAll_eq_error h
  obtain ⟨segments, hsegments⟩ := hread e (by simp)
  obtain ⟨p, i, r, r', c, rfl, hkeyed, hlead, hc⟩ :=
    exists_clash_of_insertEntry_eq_error hbefore hsegments hfail
  exact ⟨before, e, after, m₁, p, i, r, r', c, rfl, rfl, hsegments, hkeyed, hlead, hbefore, hc⟩

/-- A run of readable keys of which no two clash succeeds. -/
theorem exists_insertAll_of_no_clash
    (hread : ∀ e ∈ entries, ∃ segments, Key.segments? e.1 = some segments)
    (hnone : ∀ p i, ¬ Clash (keySegments entries) p i) : ∃ m, insertAll [] entries = .ok m := by
  cases hresult : insertAll [] entries with
  | ok m => exact ⟨m, rfl⟩
  | error x =>
      obtain ⟨before, e, after, -, p, i, r, r', -, rfl, -, he, hearlier, hlead, -⟩ :=
        exists_clash_of_insertAll_eq_error hread hresult
      have hkey : p ++ .index i :: r ∈ keySegments (before ++ e :: after) :=
        mem_keySegments.2 ⟨e, by simp, he⟩
      exact absurd ⟨r', r, mem_keySegments_append_left hearlier _, hkey, hlead⟩ (hnone p i)

/-! ## Plain keys -/

/-- The value of a plain key is held under the key. -/
theorem Lands.eq_of_plain {n n' : Node} {v : Value} {segments : List Segment} {s t : List Char}
    (h : Lands n n' v segments s t) (hs : Spells segments s) (hplain : Plain s) : t = s := by
  have hprinted := hs.eq_continued hplain
  cases h with
  | exact _ => exact hprinted.symm
  | @compound p x r u c hsegments hr hsuffix hspells hc ho =>
      rw [hprinted, hsegments, hspells.eq_continued (hplain.suffix hsuffix), ← Key.continued_append,
        List.append_assoc, List.singleton_append]

theorem updates_insertEntry_of_plain {e : String × Value} (hm : Normal (.map m))
    (hplain : Plain e.1.toList) (h : insertEntry m e = .ok m') :
    Normal (.map m') ∧ Updates (.map m) (.map m') ('.' :: e.1.toList) e.2 := by
  obtain ⟨segments, hspells, hinserted⟩ := insertEntry_inserted hm h
  obtain ⟨t, hlands, hupdate⟩ := hinserted.update
  rw [hlands.eq_of_plain hspells hplain.cons_point] at hupdate
  exact ⟨hinserted.normal, hupdate⟩

/-- After a run over properties with plain and distinct keys, these are held under their keys, and
other scalars as before. -/
theorem held_insertAll (hm : Normal (.map m)) (hplain : ∀ e ∈ entries, Plain e.1.toList)
    (hnodup : (Entries.keys entries).Nodup) (h : insertAll m entries = .ok m') {t : List Char}
    {w : Value} :
    (Node.map m').Held t w ↔
      (∃ e ∈ entries, t = '.' :: e.1.toList ∧ w = e.2) ∨
        ((∀ e ∈ entries, t ≠ '.' :: e.1.toList) ∧ (Node.map m).Held t w) := by
  induction entries generalizing m with
  | nil =>
      obtain rfl := Except.ok.inj h
      simp
  | cons e rest ih =>
      obtain ⟨m₁, hfirst, hrest⟩ := insertAll_cons_eq_ok_iff.1 h
      obtain ⟨hnormal, hupdate⟩ := updates_insertEntry_of_plain hm (hplain e List.mem_cons_self) hfirst
      obtain ⟨hnew, hnodup⟩ := List.nodup_cons.1 hnodup
      -- later properties are written under other texts
      have hother : ∀ e' ∈ rest, '.' :: e.1.toList ≠ '.' :: e'.1.toList := by
        intro e' he' htext
        have hkey : e.1 = e'.1 := String.toList_inj.1 (List.cons.inj htext).2
        exact hnew (List.mem_map.2 ⟨e', he', hkey.symm⟩)
      rw [ih hnormal (fun e' he' => hplain e' (List.mem_cons_of_mem e he')) hnodup hrest, hupdate]
      constructor
      · rintro (⟨e', he', h'⟩ | ⟨hne, ⟨rfl, rfl⟩ | ⟨ht, hheld⟩⟩)
        · exact .inl ⟨e', List.mem_cons_of_mem e he', h'⟩
        · exact .inl ⟨e, List.mem_cons_self, rfl, rfl⟩
        · exact .inr ⟨List.forall_mem_cons.2 ⟨ht, hne⟩, hheld⟩
      · rintro (⟨e', he', rfl, rfl⟩ | ⟨hne, hheld⟩)
        · rcases List.mem_cons.1 he' with rfl | he'
          · exact .inr ⟨hother, .inl ⟨rfl, rfl⟩⟩
          · exact .inl ⟨e', he', rfl, rfl⟩
        · exact .inr ⟨fun e' he' => hne e' (List.mem_cons_of_mem e he'),
            .inr ⟨hne e List.mem_cons_self, hheld⟩⟩

/-- A document built from plain keys holds exactly the properties, each under its key. -/
theorem held_build {flat : Properties} (hplain : ∀ e ∈ flat.entries, Plain e.1.toList)
    (h : build flat = .ok m) {t : List Char} {w : Value} :
    (Node.map m).Held t w ↔ ∃ e ∈ flat.entries, t = '.' :: e.1.toList ∧ w = e.2 := by
  rw [held_insertAll Node.normal_empty_map hplain flat.nodup h]
  simp [Node.held_map]

end LayeredConfig.Structure
