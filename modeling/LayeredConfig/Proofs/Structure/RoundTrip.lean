import LayeredConfig.Proofs.Document.Regular
import LayeredConfig.Proofs.Structure.Run

/-!
# Structuring undoes flattening

The flat properties of a regular document are its ends in order, and inserting these one after another
rebuilds the document from left to right: nothing is ever in the way of a key.

* `Puts` — an insertion that meets nothing in its way.
* `PutsAll` — a run of such insertions; a run below an entry or an element is one in the child.
* `putsAll_ofDocument` — the ends of a regular value rebuild it.
* `restore_of_regular` — what is read back from the flat properties of a regular document, with and
  without its wrapper.
-/

namespace LayeredConfig.Structure

open Key (Segment Token)
open Node (ofDocument itemsOfDocument entriesOfDocument)

/-! ## Insertions that meet nothing in their way -/

/-- A value is put at a path along which there are containers of the right kind, and then nothing. -/
inductive Puts (v : Value) : Node → List Segment → Node → Prop
  | leaf : Puts v .null [] (.leaf v)
  | entry {m : NodeMap} {k : String} {c c' : Node} {path : List Segment}
      (hc : (m.get? k = some c ∧ c ≠ .null) ∨ (m.get? k = none ∧ c = blank path))
      (h : Puts v c path c') : Puts v (.map m) (.name k :: path) (.map (m.insert k c'))
  | element {items : List Node} {i : Nat} {c c' : Node} {path : List Segment}
      (hc : (items[i]? = some c ∧ c ≠ .null) ∨ (items[i]? = none ∧ c = blank path))
      (h : Puts v c path c') :
      Puts v (.list items) (.index i :: path) (.list ((padTo items i).set i c'))

variable {v : Value} {n n' c c' : Node} {path : List Segment}

theorem Puts.opener (h : Puts v n path n') : n.opener = Key.lead path := by
  cases h <;> rfl

theorem Puts.ne_null (h : Puts v n path n') : n' ≠ .null := by
  cases h <;> simp

theorem occupant_eq_of_puts {o : Option Node}
    (hc : (o = some c ∧ c ≠ .null) ∨ (o = none ∧ c = blank path)) : occupant path o = c := by
  rcases hc with ⟨rfl, hnull⟩ | ⟨rfl, rfl⟩
  · exact occupant_some hnull
  · rfl

/-- Such an insertion is one that descends all the way. -/
theorem insertInto_of_puts {tokens : List Token} (h : Puts v n (tokens.map Token.segment) n') :
    insertInto v tokens n = .ok n' := by
  generalize hpath : tokens.map Token.segment = path at h
  induction h generalizing tokens with
  | leaf =>
      obtain rfl := List.map_eq_nil_iff.1 hpath
      rfl
  | @entry m k c c' path hc h ih =>
      obtain ⟨⟨_, q, text⟩, tokens, rfl, ⟨⟩, rfl⟩ := List.map_eq_cons_iff.1 hpath
      rw [insertInto, occupant_eq_of_puts hc, if_pos h.opener, ih rfl]
      rfl
  | @element items i c c' path hc h ih =>
      obtain ⟨⟨_, q, text⟩, tokens, rfl, ⟨⟩, rfl⟩ := List.map_eq_cons_iff.1 hpath
      rw [insertInto, occupant_eq_of_puts hc, if_pos h.opener, ih rfl]
      rfl

/-! ## Runs that meet nothing in their way -/

/-- Values are put one after another; a null slot has the value null. -/
inductive PutsAll : Node → List (List Segment × Option Value) → Node → Prop
  | nil (n : Node) : PutsAll n [] n
  | cons {n n₁ n' : Node} {e : List Segment × Option Value}
      {rest : List (List Segment × Option Value)} (h : Puts (e.2.getD .null) n e.1 n₁)
      (hrest : PutsAll n₁ rest n') : PutsAll n (e :: rest) n'

section

variable {ends rest : List (List Segment × Option Value)}

theorem PutsAll.append {n₁ : Node} (h : PutsAll n ends n₁) (h' : PutsAll n₁ rest n') :
    PutsAll n (ends ++ rest) n' := by
  induction h with
  | nil => exact h'
  | cons h _ ih => exact .cons h (ih h')

/-- A run below an entry that is there. -/
theorem PutsAll.under_entry {k : String} {m : NodeMap} (h : PutsAll c ends c')
    (hc : m.get? k = some c) (hnull : c ≠ .null) :
    PutsAll (.map m) (ends.map fun e => (.name k :: e.1, e.2)) (.map (m.insert k c')) := by
  induction h generalizing m with
  | nil c =>
      rw [List.map_nil, NodeMap.insert_of_get? hc]
      exact .nil _
  | @cons c c₁ c' e rest h _ ih =>
      have hrest := ih (NodeMap.get?_insert_self m k c₁) h.ne_null
      rw [NodeMap.insert_insert] at hrest
      exact .cons (.entry (.inl ⟨hc, hnull⟩) h) hrest

/-- A run below an entry that is not there yet. -/
theorem PutsAll.under_name {k : String} {m : NodeMap} {e : List Segment × Option Value}
    (h : PutsAll (blank e.1) (e :: rest) c') (hc : m.get? k = none) :
    PutsAll (.map m) ((e :: rest).map fun e => (.name k :: e.1, e.2)) (.map (m.insert k c')) := by
  cases h with
  | @cons _ c₁ _ _ _ h hrest =>
      have hlater := hrest.under_entry (NodeMap.get?_insert_self m k c₁) h.ne_null
      rw [NodeMap.insert_insert] at hlater
      exact .cons (.entry (.inr ⟨hc, rfl⟩) h) hlater

theorem padTo_of_lt {items : List Node} {i : Nat} (h : i < items.length) : padTo items i = items := by
  simp [padTo, show i + 1 - items.length = 0 by omega]

theorem padTo_set_set (items : List Node) (i : Nat) (a b : Node) :
    (padTo ((padTo items i).set i a) i).set i b = (padTo items i).set i b := by
  have hlen : i < ((padTo items i).set i a).length := by
    rw [List.length_set, length_padTo]
    omega
  rw [padTo_of_lt hlen, List.set_set]

/-- A run below an element that is there. -/
theorem PutsAll.under_element {i : Nat} {items : List Node} (h : PutsAll c ends c')
    (hc : items[i]? = some c) (hnull : c ≠ .null) :
    PutsAll (.list items) (ends.map fun e => (.index i :: e.1, e.2))
      (.list ((padTo items i).set i c')) := by
  induction h generalizing items with
  | nil c =>
      obtain ⟨hi, rfl⟩ := List.getElem?_eq_some_iff.1 hc
      rw [padTo_of_lt hi, List.set_getElem_self]
      exact .nil _
  | @cons c c₁ c' e rest h _ ih =>
      have hrest := ih (getElem?_padTo_set_self items i c₁) h.ne_null
      rw [padTo_set_set] at hrest
      exact .cons (.element (.inl ⟨hc, hnull⟩) h) hrest

/-- A run below an element that is not there yet. -/
theorem PutsAll.under_index {i : Nat} {items : List Node} {e : List Segment × Option Value}
    (h : PutsAll (blank e.1) (e :: rest) c') (hc : items[i]? = none) :
    PutsAll (.list items) ((e :: rest).map fun e => (.index i :: e.1, e.2))
      (.list ((padTo items i).set i c')) := by
  cases h with
  | @cons _ c₁ _ _ _ h hrest =>
      have hlater := hrest.under_element (getElem?_padTo_set_self items i c₁) h.ne_null
      rw [padTo_set_set] at hlater
      exact .cons (.element (.inr ⟨hc, rfl⟩) h) hlater

/-! ## Rebuilding a document -/

/-- A node that its ends rebuild where nothing has been put yet. -/
def Rebuilt (n : Node) : Prop := ∃ e, n.ends.head? = some e ∧ PutsAll (blank e.1) n.ends n

/-- The ends of entries append these to a map. -/
theorem putsAll_entries {m : NodeMap} {entries : List (String × Node)}
    (hnodup : (NodeMap.names (m ++ entries)).Nodup) (h : ∀ e ∈ entries, Rebuilt e.2) :
    PutsAll (.map m) (Node.entryEnds entries) (.map (m ++ entries)) := by
  induction entries generalizing m with
  | nil =>
      rw [Node.entryEnds, List.append_nil]
      exact .nil _
  | cons entry entries ih =>
      obtain ⟨k, n⟩ := entry
      obtain ⟨e, hhead, hn⟩ := h (k, n) List.mem_cons_self
      obtain ⟨rest, hends⟩ := List.head?_eq_some_iff.1 hhead
      have hnew : k ∉ NodeMap.names m := by
        rw [NodeMap.names, List.map_append, List.nodup_append] at hnodup
        exact fun hmem => hnodup.2.2 k hmem k (by simp) rfl
      -- the ends of the first entry make up the entry behind all that are there
      have hfirst := PutsAll.under_name (hends ▸ hn) (NodeMap.get?_eq_none_iff.2 hnew)
      rw [NodeMap.insert_of_not_mem n hnew] at hfirst
      have hrest := @ih (m ++ [(k, n)]) (by rwa [List.append_assoc]) fun e he =>
        h e (List.mem_cons_of_mem _ he)
      rw [List.append_assoc] at hrest
      rw [Node.entryEnds, hends]
      exact hfirst.append hrest

/-- The ends of items append these to a list. -/
theorem putsAll_items {items more : List Node} (h : ∀ n ∈ more, Rebuilt n) :
    PutsAll (.list items) (Node.itemEnds items.length more) (.list (items ++ more)) := by
  induction more generalizing items with
  | nil =>
      rw [Node.itemEnds, List.append_nil]
      exact .nil _
  | cons n more ih =>
      obtain ⟨e, hhead, hn⟩ := h n List.mem_cons_self
      obtain ⟨rest, hends⟩ := List.head?_eq_some_iff.1 hhead
      have happend : (padTo items items.length).set items.length n = items ++ [n] := by
        simp [padTo]
      have hfirst := PutsAll.under_index (hends ▸ hn) (List.getElem?_eq_none (le_refl items.length))
      rw [happend] at hfirst
      have hrest := @ih (items ++ [n]) fun n' hn' => h n' (List.mem_cons_of_mem _ hn')
      rw [List.append_assoc, List.length_append, List.length_singleton] at hrest
      rw [Node.itemEnds, hends]
      exact hfirst.append hrest

/-- The ends of a regular value rebuild it. -/
theorem rebuilt_ofDocument {v : Value} (h : v.Regular) : Rebuilt (ofDocument v) := by
  induction h with
  | @scalar v h =>
      rw [Node.ofDocument_scalar h]
      refine ⟨([], some v), by rw [Node.ends]; rfl, ?_⟩
      rw [Node.ends]
      exact .cons .leaf (.nil _)
  | @array items hne hlength hitems ih =>
      have hall : ∀ n ∈ itemsOfDocument items, Rebuilt n := by
        rw [Node.itemsOfDocument_eq]
        exact List.forall_mem_map.2 ih
      obtain ⟨v, rest, rfl⟩ := List.exists_cons_of_ne_nil hne
      obtain ⟨e, hhead, -⟩ := ih v List.mem_cons_self
      refine ⟨(.index 0 :: e.1, e.2), ?_, ?_⟩
      · rw [ofDocument, Node.ends, itemsOfDocument, Node.itemEnds]
        simp [hhead]
      · have hputs := @putsAll_items [] _ hall
        rwa [ofDocument, Node.ends]
  | @object members hne hnodup hnames hmembers ih =>
      have hall : ∀ e ∈ entriesOfDocument members, Rebuilt e.2 := by
        rw [Node.entriesOfDocument_eq]
        exact List.forall_mem_map.2 ih
      obtain ⟨⟨k, v⟩, rest, rfl⟩ := List.exists_cons_of_ne_nil hne
      obtain ⟨e, hhead, -⟩ := ih (k, v) List.mem_cons_self
      refine ⟨(.name k :: e.1, e.2), ?_, ?_⟩
      · rw [ofDocument, Node.ends, entriesOfDocument, Node.entryEnds]
        simp [hhead]
      · have hputs := @putsAll_entries [] (entriesOfDocument ((k, v) :: rest))
          (by rwa [List.nil_append, Node.names_entriesOfDocument]) hall
        rwa [ofDocument, Node.ends]

/-- A run over the texts of paths into a map. -/
theorem insertAll_of_putsAll {m : NodeMap} (h : PutsAll (.map m) ends n')
    (hvalid : ∀ e ∈ ends, ∀ g ∈ e.1, Key.IsSegment g) :
    ∃ m', n' = .map m' ∧
      insertAll m (ends.map fun e => (String.ofList (Key.text e.1), e.2.getD .null)) = .ok m' := by
  generalize hn : Node.map m = n at h
  induction h generalizing m with
  | nil => exact ⟨m, hn.symm, rfl⟩
  | @cons n n₁ n' e rest h _ ih =>
      subst hn
      obtain ⟨k, path, hpath⟩ : ∃ k path, e.1 = .name k :: path := by
        generalize e.1 = path at h
        cases h
        exact ⟨_, _, rfl⟩
      -- the printed text of the path is read as the path
      have hspells : Key.Spells e.1 ('.' :: (String.ofList (Key.text e.1)).toList) := by
        have hprinted := Key.spells_continued (hvalid e List.mem_cons_self)
        rw [hpath] at hprinted ⊢
        simpa [Key.text] using hprinted
      obtain ⟨tokens, hparse, hsegments⟩ :=
        Key.exists_parse_of_segments? (Key.segments?_eq_some_iff.2 hspells)
      have hinto := insertInto_of_puts (hsegments ▸ h)
      rw [← insertKey_eq (Key.parse_eq_ok_iff.1 hparse)] at hinto
      obtain ⟨m₁, hinsert, rfl⟩ := map_eq_ok.1 hinto
      obtain ⟨m', rfl, hrest⟩ := ih (fun e' he' => hvalid e' (List.mem_cons_of_mem e he')) rfl
      refine ⟨m', rfl, ?_⟩
      rw [List.map_cons, insertAll_cons_eq_ok_iff]
      exact ⟨m₁, insertEntry_eq_ok_iff.2 ⟨_, hparse, hinsert⟩, hrest⟩

end

/-! ## Whole documents -/

/-- Structuring the flat properties of a map gives the map. -/
theorem build_flatten {members : List (String × Value)} (h : (Value.object members).Regular) :
    build (Value.object members).flatten = .ok (entriesOfDocument members) := by
  have hvalue := Node.toValue_ofDocument (.object members)
  have hnormal := Node.normal_ofDocument h
  have hscalar : Node.ScalarEnds (ofDocument (.object members)).ends := fun e he v hv => by
    obtain ⟨⟨w, hw, ho⟩, -⟩ := Node.ends_ofDocument h he
    obtain rfl : w = v := by simpa [ho] using hv
    exact hw
  have hsegments := fun e he => (Node.ends_ofDocument h (e := e) he).2
  rw [ofDocument] at hvalue hnormal hscalar hsegments
  have hputs : PutsAll (.map []) (Node.map (entriesOfDocument members)).ends
      (.map (entriesOfDocument members)) := by
    rw [Node.ends]
    refine putsAll_entries (by simpa using hnormal.distinct) ?_
    cases h with
    | scalar h => exact h.elim
    | object hne hnodup hnames hmembers =>
        rw [Node.entriesOfDocument_eq]
        exact List.forall_mem_map.2 fun e he => rebuilt_ofDocument (hmembers e he)
  obtain ⟨m', hm', hrun⟩ := insertAll_of_putsAll hputs hsegments
  rw [build, ← hvalue, Node.entries_flatten hnormal hscalar, hrun, Node.map.inj hm']

/-- Flat properties of a root that is no map are those of the map that wraps it. -/
theorem flatten_wrapped {v : Value} (hmap : ∀ members, v ≠ .object members) (hnull : v ≠ .null) :
    v.flatten = (Value.object [(documentKey, v)]).flatten := by
  have hleaves : v.documentLeaves = (Value.object [(documentKey, v)]).documentLeaves := by
    cases v with
    | null => exact absurd rfl hnull
    | object members => exact absurd rfl (hmap members)
    | bool | number | string | array => simp [Value.documentLeaves]
  rw [Value.flatten, Value.flatten, hleaves]

theorem ofDocument_ne_null (v : Value) : ofDocument v ≠ .null := by
  cases v <;> simp [ofDocument]

/-- The document that is read back from the flat properties of a document, and whether a wrapper has
been taken off. -/
def restore (strip : Bool) (document : Value) : Except InvalidKey (Value × Bool) :=
  (buildRoot strip document.flatten).map fun root => (root.1.toValue, root.2)

theorem restore_object {members : List (String × Value)}
    (h : build (Value.object members).flatten = .ok (entriesOfDocument members)) (strip : Bool) :
    restore strip (.object members) = .ok (if strip then
      ((withoutWrapper (entriesOfDocument members)).1.toValue,
        (withoutWrapper (entriesOfDocument members)).2) else (.object members, false)) := by
  have hvalue := Node.toValue_ofDocument (.object members)
  rw [ofDocument] at hvalue
  cases strip <;> simp [restore, buildRoot, h, Except.map, hvalue]

theorem withoutWrapper_of_document (v : Value) :
    withoutWrapper (entriesOfDocument [(documentKey, v)]) = (ofDocument v, true) := by
  rw [entriesOfDocument, entriesOfDocument, withoutWrapper, if_pos rfl]
  exact ofDocument_ne_null v

theorem withoutWrapper_of_ne {members : List (String × Value)}
    (h : ∀ v, members ≠ [(documentKey, v)]) :
    withoutWrapper (entriesOfDocument members) = (.map (entriesOfDocument members), false) := by
  rcases members with _ | ⟨⟨k, v⟩, _ | ⟨e, rest⟩⟩
  · rfl
  · have hk : k ≠ documentKey := by
      rintro rfl
      exact h v rfl
    rw [entriesOfDocument, entriesOfDocument, withoutWrapper, if_neg hk]
    exact ofDocument_ne_null v
  · rw [entriesOfDocument, entriesOfDocument, withoutWrapper]
    simp

/-- Structuring undoes flattening.  A map is read back as it is, order and nulls included; another root
that is not null is read back under the name that wraps it.  Taking wrappers off gives such a root, and
changes no map but one that looks like a wrapper. -/
theorem restore_of_regular (document : Value) (h : document = .object [] ∨ document.Regular) :
    (∀ members, document = .object members →
      restore false document = .ok (document, false) ∧
        ((∀ v, members ≠ [(documentKey, v)]) → restore true document = .ok (document, false)) ∧
          ∀ v, members = [(documentKey, v)] → restore true document = .ok (v, true)) ∧
      ((∀ members, document ≠ .object members) → document ≠ .null →
        restore false document = .ok (.object [(documentKey, document)], false) ∧
          restore true document = .ok (document, true)) := by
  constructor
  · rintro members rfl
    have hbuild : build (Value.object members).flatten = .ok (entriesOfDocument members) := by
      rcases h with h | h
      · obtain rfl : members = [] := by simpa using h
        rfl
      · exact build_flatten h
    have hvalue := Node.toValue_ofDocument (.object members)
    rw [ofDocument] at hvalue
    refine ⟨restore_object hbuild false, fun hother => ?_, ?_⟩
    · rw [restore_object hbuild true, withoutWrapper_of_ne hother, if_pos rfl, hvalue]
    · rintro v rfl
      rw [restore_object hbuild true, withoutWrapper_of_document, if_pos rfl,
        Node.toValue_ofDocument]
  · intro hmap hnull
    -- the flat properties are those of the document with its wrapper
    have hregular : document.Regular := h.resolve_left (hmap [])
    have hwrapped : (Value.object [(documentKey, document)]).Regular :=
      .object (by simp) (by simp [Entries.keys]) (by simpa using by decide) (by simpa using hregular)
    have hbuild := build_flatten hwrapped
    have hsame : ∀ strip, restore strip document =
        restore strip (.object [(documentKey, document)]) := fun strip => by
      rw [restore, flatten_wrapped hmap hnull, restore]
    rw [hsame, hsame, restore_object hbuild, restore_object hbuild, withoutWrapper_of_document,
      Node.toValue_ofDocument]
    exact ⟨rfl, rfl⟩

/-- A list with a null in front of a map. -/
def nestedItems : Value := .array [.null, .object [("b", .bool true), ("c", .string "x")]]

theorem restore_nestedItems :
    restore false (.object [("a", nestedItems)]) = .ok (.object [("a", nestedItems)], false) ∧
      restore false nestedItems = .ok (.object [(documentKey, nestedItems)], false) ∧
        restore true nestedItems = .ok (nestedItems, true) := by
  have hmap : (Value.object [("b", .bool true), ("c", .string "x")]).Regular :=
    .object (by simp) (by decide) (by decide)
      (by simpa using ⟨.scalar trivial, .scalar trivial⟩)
  have hitems : nestedItems.Regular :=
    .array (by simp) (by decide) (by simpa using ⟨.scalar trivial, hmap⟩)
  have hwhole : (Value.object [("a", nestedItems)]).Regular :=
    .object (by simp) (by decide) (by decide) (by simpa using hitems)
  have hread := ((restore_of_regular _ (.inr hwhole)).1 _ rfl).1
  exact ⟨hread, (restore_of_regular _ (.inr hitems)).2 (by simp [nestedItems])
    (by simp [nestedItems])⟩

end LayeredConfig.Structure
