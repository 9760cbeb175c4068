import LayeredConfig.Proofs.Document.Normal
import LayeredConfig.Structure

/-!
# Insertion as an update

Seen through the scalars that it holds, a document is a flat map, and inserting a key writes one entry
of it: the value is held under one tail afterwards and nothing else changes, although whole subtrees
may have moved into compound names.

* `Lands` — under which tail the value is held: the one printed for the segments of the key, or, where
  the key met an entry at which it could not go on, the printed one up to there and the rest of the
  key as it was written.
* `Inserted` — one insertion: the document stays normal and is updated at the tail where the value
  lands.
* `Inserted.under_name`, `Inserted.under_index` — an insertion below an entry or an element is one
  into the map or the list.
* `inserted_compound` — the rest of a key that cannot go on becomes a compound name.
-/

namespace LayeredConfig.Structure

open Key (Segment Spells IsName stem behindStem)
open Key.text (continued)
open Node (Normal Filled Held WellNamed)

variable {v : Value} {segments : List Segment} {s t : List Char}

/-- The scalars of a node with one of them written. -/
def Updates (n n' : Node) (t : List Char) (v : Value) : Prop :=
  ∀ u w, n'.Held u w ↔ (u = t ∧ w = v) ∨ (u ≠ t ∧ n.Held u w)

theorem Updates.held {n n' : Node} (h : Updates n n' t v) : n'.Held t v :=
  (h t v).2 (.inl ⟨rfl, rfl⟩)

/-- The tail under which the value of a key with the given segments and tail is held. -/
inductive Lands (n n' : Node) (v : Value) (segments : List Segment) (s : List Char) :
    List Char → Prop
  | exact (h : n'.at? segments = some (.leaf v)) : Lands n n' v segments s (continued segments)
  | compound {p : List Segment} {x : String} {r : List Segment} {u : List Char} {c : Node}
      (hsegments : segments = p ++ .name x :: r) (hr : r ≠ []) (hsuffix : u <:+ s)
      (hspells : Spells r u) (hc : n.at? (p ++ [.name x]) = some c) (ho : c.opener ≠ u.head?) :
      Lands n n' v segments s (continued (p ++ [.name x]) ++ u)

/-- What one insertion does to a node. -/
structure Inserted (n n' : Node) (v : Value) (segments : List Segment) (s : List Char) : Prop where
  normal : n'.Normal
  filled : n'.Filled
  opener : n'.opener = n.opener
  update : ∃ t, Lands n n' v segments s t ∧ Updates n n' t v

/-! ## Nodes that hold nothing -/

/-- A place where nothing has been put yet. -/
def Vacant (n : Node) : Prop := n = .null ∨ n = .map [] ∨ n = .list []

theorem Vacant.not_held {n : Node} (h : Vacant n) (w : Value) : ¬ n.Held t w := by
  rcases h with rfl | rfl | rfl
  · exact Node.not_held_null
  · simp [Node.held_map]
  · simp [Node.held_list]

theorem Vacant.at?_eq_none {n : Node} (h : Vacant n) {path : List Segment} (hne : path ≠ []) :
    n.at? path = none := by
  rcases path with _ | ⟨k | i, path⟩
  · exact absurd rfl hne
  · rcases h with rfl | rfl | rfl <;> simp [Node.at?]
  · rcases h with rfl | rfl | rfl <;> simp [Node.at?]

/-- A scalar takes the place of a scalar or of nothing. -/
theorem inserted_leaf {n : Node} (hn : n = .null ∨ ∃ w, n = .leaf w) (v : Value) :
    Inserted n (.leaf v) v [] [] where
  normal := .leaf v
  filled := trivial
  opener := by rcases hn with rfl | ⟨w, rfl⟩ <;> rfl
  update := by
    refine ⟨[], .exact rfl, fun u w => ?_⟩
    rw [Node.held_leaf]
    constructor
    · exact .inl
    · rintro (h | ⟨hu, h⟩)
      · exact h
      · rcases hn with rfl | ⟨w', rfl⟩
        · exact absurd h Node.not_held_null
        · exact absurd (Node.held_leaf.1 h).1 hu

/-! ## One entry of a map -/

theorem behindStem_stem (k : List Char) : behindStem (stem k) = [] :=
  Key.behindStem_eq_nil_iff.2 fun _ hc => List.mem_takeWhile_imp hc

/-- Writing an entry keeps names in order, if the entry may stand under its name and the compound names
beside it still conflict with it. -/
theorem wellNamed_insert {m : NodeMap} (hm : WellNamed m) {key : String} {d : Node}
    (hstem : stem key.toList ≠ [])
    (hcompound : behindStem key.toList ≠ [] → (∃ w, d = .leaf w) ∧
      ∃ b, m.get? (String.ofList (stem key.toList)) = some b ∧
        b.opener ≠ (behindStem key.toList).head?)
    (hbase : behindStem key.toList = [] → ∀ b, m.get? key = some b →
      d.opener = none ∨ d.opener = b.opener) :
    WellNamed (m.insert key d) := by
  intro k n hk
  rw [NodeMap.get?_insert] at hk
  by_cases hkey : k = key
  · subst hkey
    obtain rfl : d = n := by simpa using hk
    refine ⟨hstem, fun h => ?_⟩
    obtain ⟨hleaf, b, hb, ho⟩ := hcompound h
    have hne : String.ofList (stem k.toList) ≠ k := by
      intro h0
      have hplain := behindStem_stem k.toList
      rw [← String.toList_ofList (l := stem k.toList), h0] at hplain
      exact h hplain
    exact ⟨hleaf, b, by rw [NodeMap.get?_insert_of_ne hne, hb], ho⟩
  · rw [if_neg hkey] at hk
    obtain ⟨hk0, hkc⟩ := hm k n hk
    refine ⟨hk0, fun h => ?_⟩
    obtain ⟨hleaf, b, hb, ho⟩ := hkc h
    refine ⟨hleaf, ?_⟩
    by_cases hsame : String.ofList (stem k.toList) = key
    · -- the entry that the compound name conflicts with is the one that is written
      have hplain : behindStem key.toList = [] := by
        rw [← hsame, String.toList_ofList, behindStem_stem]
      refine ⟨d, by rw [hsame, NodeMap.get?_insert_self], ?_⟩
      rw [hsame] at hb
      rcases hbase hplain b hb with hd | hd
      · rw [hd]
        cases hrest : behindStem k.toList with
        | nil => exact absurd hrest h
        | cons c rest => simp
      · rwa [hd]
    · exact ⟨b, by rw [NodeMap.get?_insert_of_ne hsame, hb], ho⟩

theorem normal_insert {m : NodeMap} (hm : Normal (.map m)) {key : String} {d : Node}
    (hnamed : WellNamed (m.insert key d)) (hd : d.Normal) (hf : d.Filled) :
    Normal (.map (m.insert key d)) := by
  refine .map (NodeMap.nodup_names_insert key d hm.distinct) hnamed ?_ ?_
  · intro k n hk
    rw [NodeMap.get?_insert] at hk
    split at hk
    · obtain rfl : d = n := by simpa using hk
      exact hf
    · exact hm.entry_filled hk
  · intro k n hk
    rw [NodeMap.get?_insert] at hk
    split at hk
    · obtain rfl : d = n := by simpa using hk
      exact hd
    · exact hm.entry hk

section

variable {m : NodeMap} {name : String} {c c' : Node}

theorem Lands.under_name (hold : m.get? name = some c ∨ (m.get? name = none ∧ Vacant c))
    (h : Lands c c' v segments s t) :
    Lands (.map m) (.map (m.insert name c')) v (.name name :: segments)
      ('.' :: (name.toList ++ s)) ('.' :: (name.toList ++ t)) := by
  cases h with
  | exact h =>
      exact .exact (Node.at?_name_eq_some.2 ⟨_, c', rfl, NodeMap.get?_insert_self m name c', h⟩)
  | @compound p x r u b hsegments hr hsuffix hspells hb ho =>
      have hget : m.get? name = some c := by
        rcases hold with hold | ⟨-, hvacant⟩
        · exact hold
        · simp [hvacant.at?_eq_none] at hb
      have hsuffix' : u <:+ '.' :: (name.toList ++ s) :=
        hsuffix.trans ⟨'.' :: name.toList, by simp⟩
      have hlands : Lands (.map m) (.map (m.insert name c')) v (.name name :: segments)
          ('.' :: (name.toList ++ s)) (continued (.name name :: p ++ [.name x]) ++ u) :=
        .compound (by rw [hsegments]; rfl) hr hsuffix' hspells
          (Node.at?_name_eq_some.2 ⟨m, c, rfl, hget, hb⟩) ho
      simpa using hlands

theorem Updates.under_name (hnamed : WellNamed (m.insert name c'))
    (hold : m.get? name = some c ∨ (m.get? name = none ∧ Vacant c)) (h : Updates c c' t v) :
    Updates (.map m) (.map (m.insert name c')) ('.' :: (name.toList ++ t)) v := by
  have hself := NodeMap.get?_insert_self m name c'
  intro u w
  rw [Node.held_map, Node.held_map]
  constructor
  · rintro ⟨k, d, u, hk, hd, rfl⟩
    by_cases hkey : k = name
    · subst hkey
      obtain rfl : c' = d := by simpa using hk
      rcases (h u w).1 hd with ⟨rfl, rfl⟩ | ⟨hne, hheld⟩
      · exact .inl ⟨rfl, rfl⟩
      · refine .inr ⟨by simpa using hne, ?_⟩
        rcases hold with hold | ⟨-, hvacant⟩
        · exact ⟨k, c, u, hold, hheld, rfl⟩
        · exact absurd hheld (hvacant.not_held w)
    · -- no text leads into two entries
      refine .inr ⟨fun htext => hkey ?_, k, d, u, ?_, hd, rfl⟩
      · exact Node.entry_unique hnamed hk hself hd.follows h.held.follows (by simpa using htext)
      · rwa [NodeMap.get?_insert_of_ne hkey] at hk
  · rintro (⟨rfl, rfl⟩ | ⟨hne, k, d, u, hk, hd, rfl⟩)
    · exact ⟨name, c', t, hself, h.held, rfl⟩
    · by_cases hkey : k = name
      · subst hkey
        rcases hold with hold | ⟨hold, -⟩
        · obtain rfl : c = d := by simpa [hold] using hk
          have hut : u ≠ t := by simpa using hne
          exact ⟨k, c', u, hself, (h u w).2 (.inr ⟨hut, hd⟩), rfl⟩
        · simp [hold] at hk
      · exact ⟨k, d, u, by rwa [NodeMap.get?_insert_of_ne hkey], hd, rfl⟩

/-- An insertion below an entry of a map is an insertion into the map. -/
theorem Inserted.under_name (hm : Normal (.map m)) (hname : IsName name.toList)
    (hold : m.get? name = some c ∨ (m.get? name = none ∧ Vacant c))
    (h : Inserted c c' v segments s) :
    Inserted (.map m) (.map (m.insert name c')) v (.name name :: segments)
      ('.' :: (name.toList ++ s)) := by
  obtain ⟨hnormal, hfilled, hopener, t, hlands, hupdate⟩ := h
  have hnamed : WellNamed (m.insert name c') := by
    apply wellNamed_insert hm.named
    · rw [hname.stem]
      exact hname.1
    · exact fun h => absurd hname.behindStem h
    · intro _ b hb
      rcases hold with hold | ⟨hold, -⟩
      · obtain rfl : c = b := by simpa [hold] using hb
        exact .inr hopener
      · simp [hold] at hb
  exact ⟨normal_insert hm hnamed hnormal hfilled, NodeMap.insert_ne_nil m name c', rfl,
    _, hlands.under_name hold, hupdate.under_name hnamed hold⟩

/-- The name under which the rest of a key is kept, taken apart again. -/
theorem stem_compound (hname : IsName name.toList) (hs : Spells segments s) :
    stem (String.ofList (name.toList ++ s)).toList = name.toList ∧
      behindStem (String.ofList (name.toList ++ s)).toList = s := by
  rw [String.toList_ofList]
  constructor
  · rw [Key.stem_append hs.detached, hname.stem]
  · rw [Key.behindStem_append hs.detached, hname.behindStem, List.nil_append]

theorem normal_compound (hm : Normal (.map m)) (hname : IsName name.toList)
    (hs : Spells segments s) (hne : segments ≠ []) (hc : m.get? name = some c)
    (ho : c.opener ≠ s.head?) (v : Value) :
    Normal (.map (m.insert (String.ofList (name.toList ++ s)) (.leaf v))) := by
  obtain ⟨hstem, hrest⟩ := stem_compound hname hs
  refine normal_insert hm ?_ (.leaf v) trivial
  apply wellNamed_insert hm.named
  · rw [hstem]
    exact hname.1
  · rw [hstem, hrest, String.ofList_toList]
    exact fun _ => ⟨⟨v, rfl⟩, c, hc, ho⟩
  · intro hnil
    rw [hrest] at hnil
    subst hnil
    cases hs
    exact absurd rfl hne

/-- A compound name is one that no other entry leads to, so writing it writes its text only. -/
theorem updates_compound (hm : Normal (.map m)) (hname : IsName name.toList)
    (hs : Spells segments s) (hne : segments ≠ []) (hc : m.get? name = some c)
    (ho : c.opener ≠ s.head?) (v : Value) :
    Updates (.map m) (.map (m.insert (String.ofList (name.toList ++ s)) (.leaf v)))
      ('.' :: (name.toList ++ s)) v := by
  have hnamed := (normal_compound hm hname hs hne hc ho v).named
  have hrest := (stem_compound hname hs).2
  have htext : (String.ofList (name.toList ++ s)).toList = name.toList ++ s :=
    String.toList_ofList
  generalize String.ofList (name.toList ++ s) = key at *
  rw [← htext]
  have hself := NodeMap.get?_insert_self m key (.leaf v)
  intro u w
  rw [Node.held_map, Node.held_map]
  constructor
  · rintro ⟨k, d, u, hk, hd, rfl⟩
    by_cases hkey : k = key
    · subst hkey
      obtain rfl : .leaf v = d := by simpa using hk
      obtain ⟨rfl, rfl⟩ := Node.held_leaf.1 hd
      exact .inl ⟨by simp, rfl⟩
    · refine .inr ⟨fun h => hkey ?_, k, d, u, ?_, hd, rfl⟩
      · exact Node.entry_unique hnamed hk hself hd.follows (Node.follows_nil _) (by simpa using h)
      · rwa [NodeMap.get?_insert_of_ne hkey] at hk
  · rintro (⟨rfl, rfl⟩ | ⟨hut, k, d, u, hk, hd, rfl⟩)
    · exact ⟨key, .leaf w, [], hself, Node.held_leaf.2 ⟨rfl, rfl⟩, by simp⟩
    · have hkey : k ≠ key := by
        rintro rfl
        -- an old entry of that name is a scalar, which is held under the text that is written
        have hcompound : behindStem k.toList ≠ [] := by
          rw [hrest]
          rintro rfl
          cases hs
          exact hne rfl
        obtain ⟨⟨w', rfl⟩, -⟩ := (hm.named _ d hk).2 hcompound
        exact hut (by simp [(Node.held_leaf.1 hd).1])
      exact ⟨k, d, u, by rwa [NodeMap.get?_insert_of_ne hkey], hd, rfl⟩

/-- The rest of a key that cannot go on at an entry becomes one compound name. -/
theorem inserted_compound (hm : Normal (.map m)) (hname : IsName name.toList)
    (hs : Spells segments s) (hne : segments ≠ []) (hc : m.get? name = some c)
    (ho : c.opener ≠ s.head?) (v : Value) :
    Inserted (.map m) (.map (m.insert (String.ofList (name.toList ++ s)) (.leaf v))) v
      (.name name :: segments) ('.' :: (name.toList ++ s)) where
  normal := normal_compound hm hname hs hne hc ho v
  filled := NodeMap.insert_ne_nil m _ _
  opener := rfl
  update := by
    refine ⟨_, ?_, updates_compound hm hname hs hne hc ho v⟩
    have hlands : Lands (.map m) (.map (m.insert (String.ofList (name.toList ++ s)) (.leaf v))) v
        (.name name :: segments) ('.' :: (name.toList ++ s))
        (continued ([] ++ [.name name]) ++ s) :=
      .compound rfl hne ⟨'.' :: name.toList, by simp⟩ hs
        (Node.at?_name_eq_some.2 ⟨m, c, rfl, hc, rfl⟩) ho
    simpa using hlands

end

/-! ## One element of a list -/

theorem length_padTo (items : List Node) (i : Nat) :
    (padTo items i).length = max items.length (i + 1) := by
  simp only [padTo, List.length_append, List.length_replicate]
  omega

theorem getElem?_padTo (items : List Node) (i j : Nat) :
    (padTo items i)[j]? = if j < items.length then items[j]? else if j ≤ i then some .null else none := by
  unfold padTo
  by_cases hj : j < items.length
  · rw [if_pos hj, List.getElem?_append_left hj]
  · rw [if_neg hj, List.getElem?_append_right (by omega), List.getElem?_replicate]
    by_cases hi : j ≤ i
    · rw [if_pos hi, if_pos (by omega)]
    · rw [if_neg hi, if_neg (by omega)]

theorem getElem?_padTo_set_self (items : List Node) (i : Nat) (c : Node) :
    ((padTo items i).set i c)[i]? = some c := by
  rw [List.getElem?_set_self]
  rw [length_padTo]
  omega

theorem getElem?_padTo_set_of_ne {items : List Node} {i j : Nat} (h : j ≠ i) (c : Node) :
    ((padTo items i).set i c)[j]? =
      if j < items.length then items[j]? else if j ≤ i then some .null else none := by
  rw [List.getElem?_set_ne h.symm, getElem?_padTo]

/-- An element other than the assigned one is an old one or padding. -/
theorem getElem?_of_padTo_set {items : List Node} {i j : Nat} {c d : Node} (h : j ≠ i)
    (hd : ((padTo items i).set i c)[j]? = some d) : items[j]? = some d ∨ d = .null := by
  rw [getElem?_padTo_set_of_ne h] at hd
  split at hd
  · exact .inl hd
  · split at hd
    · exact .inr (by simpa using hd.symm)
    · simp at hd

theorem getElem?_padTo_set_of_some {items : List Node} {i j : Nat} {d : Node} (h : j ≠ i)
    (hd : items[j]? = some d) (c : Node) : ((padTo items i).set i c)[j]? = some d := by
  rw [getElem?_padTo_set_of_ne h, if_pos (List.getElem?_eq_some_iff.1 hd).1, hd]

theorem normal_padTo_set {items : List Node} (hn : Normal (.list items)) (i : Nat) {c : Node}
    (hc : c.Normal) (hf : c.Filled) : Normal (.list ((padTo items i).set i c)) := by
  have hself := getElem?_padTo_set_self items i c
  have hcne : c ≠ .null := by
    rintro rfl
    exact hf
  refine .list ?_ ?_ ?_
  · -- the last element is the one that is assigned, or the old last one behind it
    intro n hlast
    rw [List.getLast?_eq_getElem?, List.length_set, length_padTo] at hlast
    by_cases hlen : items.length ≤ i + 1
    · rw [show max items.length (i + 1) - 1 = i by omega, hself] at hlast
      obtain rfl : c = n := by simpa using hlast
      exact hcne
    · rw [show max items.length (i + 1) - 1 = items.length - 1 by omega,
        getElem?_padTo_set_of_ne (by omega), if_pos (by omega)] at hlast
      exact hn.last_ne_null (List.getLast?_eq_getElem?.trans hlast)
  · intro j n hj hne
    by_cases h : j = i
    · subst h
      obtain rfl : c = n := by simpa [hself] using hj
      exact hf
    · rcases getElem?_of_padTo_set h hj with hold | hnull
      · exact hn.element_filled hold hne
      · exact absurd hnull hne
  · intro j n hj
    by_cases h : j = i
    · subst h
      obtain rfl : c = n := by simpa [hself] using hj
      exact hc
    · rcases getElem?_of_padTo_set h hj with hold | rfl
      · exact hn.element hold
      · exact .null

section

variable {items : List Node} {i : Nat} {digits : List Char} {c c' : Node}

theorem Lands.under_index
    (hold : items[i]? = some c ∨ ((items[i]? = none ∨ items[i]? = some .null) ∧ Vacant c))
    (h : Lands c c' v segments s t) :
    Lands (.list items) (.list ((padTo items i).set i c')) v (.index i :: segments)
      ('[' :: (digits ++ ']' :: s)) ('[' :: (Nat.toDigits 10 i ++ ']' :: t)) := by
  cases h with
  | exact h =>
      exact .exact (Node.at?_index_eq_some.2 ⟨_, c', rfl, getElem?_padTo_set_self items i c', h⟩)
  | @compound p x r u b hsegments hr hsuffix hspells hb ho =>
      have hget : items[i]? = some c := by
        rcases hold with hold | ⟨-, hvacant⟩
        · exact hold
        · simp [hvacant.at?_eq_none] at hb
      have hsuffix' : u <:+ '[' :: (digits ++ ']' :: s) :=
        hsuffix.trans ⟨'[' :: (digits ++ [']']), by simp⟩
      have hlands : Lands (.list items) (.list ((padTo items i).set i c')) v (.index i :: segments)
          ('[' :: (digits ++ ']' :: s)) (continued (.index i :: p ++ [.name x]) ++ u) :=
        .compound (by rw [hsegments]; rfl) hr hsuffix' hspells
          (Node.at?_index_eq_some.2 ⟨items, c, rfl, hget, hb⟩) ho
      simpa using hlands

theorem printed_index_inj {i j : Nat} {a b : List Char}
    (h : '[' :: (Nat.toDigits 10 i ++ ']' :: a) = '[' :: (Nat.toDigits 10 j ++ ']' :: b)) :
    i = j ∧ a = b := by
  obtain ⟨hdigits, hrest⟩ := Key.digits_append_inj (fun _ => Key.isDigit_of_mem_toDigits)
    (fun _ => Key.isDigit_of_mem_toDigits) (List.cons.inj h).2
  exact ⟨by rw [← Key.indexValue_toDigits i, hdigits, Key.indexValue_toDigits], hrest⟩

theorem Updates.under_index
    (hold : items[i]? = some c ∨ ((items[i]? = none ∨ items[i]? = some .null) ∧ Vacant c))
    (h : Updates c c' t v) :
    Updates (.list items) (.list ((padTo items i).set i c'))
      ('[' :: (Nat.toDigits 10 i ++ ']' :: t)) v := by
  have hself := getElem?_padTo_set_self items i c'
  intro u w
  rw [Node.held_list, Node.held_list]
  constructor
  · rintro ⟨j, d, u, hj, hd, rfl⟩
    by_cases hji : j = i
    · subst hji
      obtain rfl : c' = d := by simpa [hself] using hj
      rcases (h u w).1 hd with ⟨rfl, rfl⟩ | ⟨hne, hheld⟩
      · exact .inl ⟨rfl, rfl⟩
      · refine .inr ⟨by simpa using hne, ?_⟩
        rcases hold with hold | ⟨-, hvacant⟩
        · exact ⟨j, c, u, hold, hheld, rfl⟩
        · exact absurd hheld (hvacant.not_held w)
    · refine .inr ⟨fun htext => hji (printed_index_inj htext).1, ?_⟩
      rcases getElem?_of_padTo_set hji hj with hj | rfl
      · exact ⟨j, d, u, hj, hd, rfl⟩
      · exact absurd hd Node.not_held_null
  · rintro (⟨rfl, rfl⟩ | ⟨hne, j, d, u, hj, hd, rfl⟩)
    · exact ⟨i, c', t, hself, h.held, rfl⟩
    · by_cases hji : j = i
      · subst hji
        rcases hold with hold | ⟨hold | hold, -⟩
        · obtain rfl : c = d := by simpa [hold] using hj
          have hut : u ≠ t := by simpa using hne
          exact ⟨j, c', u, hself, (h u w).2 (.inr ⟨hut, hd⟩), rfl⟩
        · simp [hold] at hj
        · obtain rfl : .null = d := by simpa [hold] using hj
          exact absurd hd Node.not_held_null
      · exact ⟨j, d, u, getElem?_padTo_set_of_some hji hj c', hd, rfl⟩

/-- An insertion below an element of a list is an insertion into the list. -/
theorem Inserted.under_index (hn : Normal (.list items))
    (hold : items[i]? = some c ∨ ((items[i]? = none ∨ items[i]? = some .null) ∧ Vacant c))
    (h : Inserted c c' v segments s) :
    Inserted (.list items) (.list ((padTo items i).set i c')) v (.index i :: segments)
      ('[' :: (digits ++ ']' :: s)) := by
  obtain ⟨hnormal, hfilled, -, t, hlands, hupdate⟩ := h
  refine ⟨normal_padTo_set hn i hnormal hfilled, ?_, rfl, _, hlands.under_index hold,
    hupdate.under_index hold⟩
  intro hnil
  have hself := getElem?_padTo_set_self items i c'
  rw [hnil] at hself
  simp at hself

end

end LayeredConfig.Structure
