import LayeredConfig.Proofs.Structure.Displacement

/-!
# Insertion of a key

The functions that insert a key call each other, one for maps and one for lists, and make the
containers that they need on the way.  `insertInto` says the same of any node at once: what stands
where the key goes on is descended into if the rest of the key goes on at it.  Otherwise a map displaces
it, or keeps the rest of the key in one compound name, and a list refuses the key.

* `insertAt_eq`, `insertElement_eq` — the inserting functions are `insertInto` at maps and lists.
* `insertKey_inserted` — an insertion that succeeds is one in the sense of `Inserted`.
-/

namespace LayeredConfig.Structure

open Key (Scanned Segment Spells Token lead)
open Node (Normal)

/-- What stands where nothing has been put yet and a path goes on. -/
def blank : List Segment → Node
  | [] => .null
  | .name _ :: _ => .map []
  | .index _ :: _ => .list []

/-- The node at which a path goes on: the one that is there, or a blank one. -/
def occupant (path : List Segment) (o : Option Node) : Node :=
  match o.getD .null with
  | .null => blank path
  | c => c

theorem opener_blank (path : List Segment) : (blank path).opener = lead path := by
  rcases path with _ | ⟨k | i, path⟩ <;> rfl

theorem vacant_blank (path : List Segment) : Vacant (blank path) := by
  rcases path with _ | ⟨k | i, path⟩
  · exact .inl rfl
  · exact .inr (.inl rfl)
  · exact .inr (.inr rfl)

theorem normal_blank (path : List Segment) : Normal (blank path) := by
  rcases path with _ | ⟨k | i, path⟩
  · exact .null
  · exact Node.normal_empty_map
  · exact Node.normal_empty_list

theorem occupant_cases (path : List Segment) (o : Option Node) :
    (o = some (occupant path o) ∧ occupant path o ≠ .null) ∨
      ((o = none ∨ o = some .null) ∧ occupant path o = blank path) := by
  rcases o with _ | (m | items | v | _) <;> simp [occupant]

theorem occupant_some {path : List Segment} {c : Node} (h : c ≠ .null) :
    occupant path (some c) = c := by
  cases c <;> simp_all [occupant]

/-- A node at which a path does not go on is one that is there. -/
theorem eq_some_occupant {path : List Segment} {o : Option Node}
    (h : (occupant path o).opener ≠ lead path) : o = some (occupant path o) := by
  rcases occupant_cases path o with ⟨ho, -⟩ | ⟨-, hblank⟩
  · exact ho
  · rw [hblank] at h
    exact absurd (opener_blank path) h

theorem normal_occupant {path : List Segment} {o : Option Node} (h : ∀ c, o = some c → c.Normal) :
    Normal (occupant path o) := by
  rcases occupant_cases path o with ⟨ho, -⟩ | ⟨-, hblank⟩
  · exact h _ ho
  · rw [hblank]
    exact normal_blank path

/-- Insert a value below a node. -/
def insertInto (v : Value) : List Token → Node → Except Key.Problem Node
  | [], _ => .ok (.leaf v)
  | ⟨.name k, _, text⟩ :: tokens, .map m =>
    let path := tokens.map Token.segment
    let c := occupant path (NodeMap.get? m k)
    if c.opener = lead path then
      (insertInto v tokens c).map fun c' => .map (NodeMap.insert m k c')
    else if path = [] then .ok (.map (hoist (NodeMap.insert m k (.leaf v)) k.toList c))
    else .ok (.map (NodeMap.insert m (String.ofList text) (.leaf v)))
  | ⟨.index i, _, _⟩ :: tokens, .list items =>
    let path := tokens.map Token.segment
    let c := occupant path items[i]?
    if c.opener = lead path then
      (insertInto v tokens c).map fun c' => .list ((padTo items i).set i c')
    else if path = [] then .error (.nestedElement i)
    else .error (.elementConflict i)
  | _ :: _, n => .ok n

/-! ## The inserting functions -/

section

variable {m : NodeMap} {items : List Node} {k : String} {i p : Nat} {text : List Char} {v : Value}

theorem getElem?_padTo_self (items : List Node) (i : Nat) :
    (padTo items i)[i]? = some (items[i]?.getD .null) := by
  rw [getElem?_padTo]
  by_cases h : i < items.length
  · simp [h]
  · simp [h]

/-- Filling a vacant place with a blank node, seen from what is there afterwards. -/
theorem fillVacant_blank (m : NodeMap) (k : String) (path : List Segment) :
    (m.fillVacant k (blank path)).get? k = some (occupant path (m.get? k)) ∧
      (∀ d, (m.fillVacant k (blank path)).insert k d = m.insert k d) ∧
        ((occupant path (m.get? k)).opener ≠ lead path → m.fillVacant k (blank path) = m) := by
  cases hget : m.get? k with
  | none =>
      rw [NodeMap.fillVacant_of_none _ hget]
      exact ⟨NodeMap.get?_insert_self m k _, NodeMap.insert_insert m k _,
        fun h => absurd (opener_blank path) h⟩
  | some c =>
      by_cases hnull : c = .null
      · subst hnull
        rw [NodeMap.fillVacant_of_null _ hget]
        exact ⟨NodeMap.get?_insert_self m k _, NodeMap.insert_insert m k _,
          fun h => absurd (opener_blank path) h⟩
      · rw [NodeMap.fillVacant_of_some _ hget hnull]
        refine ⟨?_, fun _ => rfl, fun _ => rfl⟩
        rw [hget, occupant_some hnull]

mutual

theorem insertAt_eq (m : NodeMap) (k : String) (p : Nat) (text : List Char) (v : Value) :
    ∀ tokens, (insertAt m k text v tokens).map Node.map =
      insertInto v (⟨.name k, p, text⟩ :: tokens) (.map m)
  | [] => by
    cases hget : m.get? k with
    | none => simp [insertAt, assign, insertInto, occupant, blank, hget, Except.map]
    | some c => cases c <;> simp [insertAt, assign, insertInto, occupant, blank, hget, Except.map]
  | ⟨.name x, q, next⟩ :: tokens => by
    obtain ⟨hget, hset, hkeep⟩ := fillVacant_blank m k (.name x :: tokens.map Token.segment)
    rw [insertAt, insertInto, List.map_cons]
    simp only [blank] at hget hset hkeep
    generalize occupant _ (m.get? k) = c at *
    simp only [hget, hset]
    cases c with
    | map child =>
        simp only [Node.opener_map, Key.lead_cons, Segment.opener_name, if_true]
        rw [← insertAt_eq child x q next v tokens]
        cases insertAt child x next v tokens <;> rfl
    | list | leaf | null =>
        rw [hkeep (by simp)]
        simp [Except.map]
  | ⟨.index j, q, next⟩ :: tokens => by
    obtain ⟨hget, hset, hkeep⟩ := fillVacant_blank m k (.index j :: tokens.map Token.segment)
    rw [insertAt, insertInto, List.map_cons]
    simp only [blank] at hget hset hkeep
    generalize occupant _ (m.get? k) = c at *
    simp only [hget, hset]
    cases c with
    | list child =>
        simp only [Node.opener_list, Key.lead_cons, Segment.opener_index, if_true]
        rw [← insertElement_eq child j q next v tokens]
        cases insertElement child j v tokens <;> rfl
    | map | leaf | null =>
        rw [hkeep (by simp)]
        simp [Except.map]

theorem insertElement_eq (items : List Node) (i p : Nat) (text : List Char) (v : Value) :
    ∀ tokens, (insertElement items i v tokens).map Node.list =
      insertInto v (⟨.index i, p, text⟩ :: tokens) (.list items)
  | [] => by
    rw [insertElement]
    simp only [getElem?_padTo_self]
    rcases hget : items[i]? with _ | (m | items | w | _) <;>
      simp [insertInto, occupant, blank, hget, Except.map]
  | ⟨.name x, q, next⟩ :: tokens => by
    obtain ⟨c, hc⟩ : ∃ c, items[i]?.getD .null = c := ⟨_, rfl⟩
    rw [insertElement, insertInto, List.map_cons]
    simp only [getElem?_padTo_self, occupant, hc]
    cases c with
    | map child =>
        simp only [Node.opener_map, Key.lead_cons, Segment.opener_name, if_true]
        rw [← insertAt_eq child x q next v tokens]
        cases insertAt child x next v tokens <;> rfl
    | null =>
        simp only [blank, Node.opener_map, Key.lead_cons, Segment.opener_name, if_true]
        rw [← insertAt_eq [] x q next v tokens]
        cases insertAt [] x next v tokens <;> rfl
    | list | leaf => simp [Except.map]
  | ⟨.index j, q, next⟩ :: tokens => by
    obtain ⟨c, hc⟩ : ∃ c, items[i]?.getD .null = c := ⟨_, rfl⟩
    rw [insertElement, insertInto, List.map_cons]
    simp only [getElem?_padTo_self, occupant, hc]
    cases c with
    | list child =>
        simp only [Node.opener_list, Key.lead_cons, Segment.opener_index, if_true]
        rw [← insertElement_eq child j q next v tokens]
        cases insertElement child j v tokens <;> rfl
    | null =>
        simp only [blank, Node.opener_list, Key.lead_cons, Segment.opener_index, if_true]
        rw [← insertElement_eq [] j q next v tokens]
        cases insertElement [] j v tokens <;> rfl
    | map | leaf => simp [Except.map]

end

/-- Inserting a key is an insertion below the root. -/
theorem insertKey_eq {key : List Char} {tokens : List Token} (hs : Scanned 0 tokens ('.' :: key))
    (m : NodeMap) (v : Value) :
    (insertKey m v tokens).map Node.map = insertInto v tokens (.map m) := by
  generalize ht : '.' :: key = t at hs
  cases hs with
  | nil => simp at ht
  | @name _ k tokens s hk hs => exact insertAt_eq m k _ _ v tokens

/-! ## The step lemma -/

/-- The step lemma, by induction on the tail: descending keeps what the insertion below does, and where
nothing can be descended into a container is displaced or the rest of the key is kept in one piece. -/
theorem inserted_of_insertInto {tokens : List Token} {s : List Char} (hs : Scanned p tokens s)
    {n n' : Node} (hn : n.Normal) (ho : n.opener = lead (tokens.map Token.segment))
    (h : insertInto v tokens n = .ok n') :
    Inserted n n' v (tokens.map Token.segment) s := by
  induction hs generalizing n n' with
  | nil p =>
      obtain rfl := Except.ok.inj h
      cases n with
      | leaf w => exact inserted_leaf (.inr ⟨w, rfl⟩) v
      | null => exact inserted_leaf (.inl rfl) v
      | map | list => simp at ho
  | @name p k tokens s hk hs ih =>
      cases n with
      | list | leaf | null => simp at ho
      | map m =>
          rw [insertInto] at h
          have hnormal : Normal (occupant (tokens.map Token.segment) (NodeMap.get? m k)) :=
            normal_occupant fun _ => hn.entry
          by_cases hopen : (occupant (tokens.map Token.segment) (NodeMap.get? m k)).opener =
              lead (tokens.map Token.segment)
          · rw [if_pos hopen] at h
            obtain ⟨c', hc', rfl⟩ := map_eq_ok.1 h
            refine (ih hnormal hopen hc').under_name hn hk ?_
            rcases occupant_cases (tokens.map Token.segment) (NodeMap.get? m k) with
              ⟨hget, -⟩ | ⟨hnone | hnull, hblank⟩
            · exact .inl hget
            · exact .inr ⟨hnone, hblank ▸ vacant_blank _⟩
            · exact (hn.entry_filled hnull).elim
          · rw [if_neg hopen] at h
            have hget := eq_some_occupant hopen
            by_cases hend : tokens.map Token.segment = []
            · -- a container makes room for the scalar
              rw [if_pos hend] at h
              obtain rfl := Except.ok.inj h
              obtain rfl := List.map_eq_nil_iff.1 hend
              cases hs
              simpa using inserted_displaced hn hk hget hopen v
            · -- the key cannot go on there, so the rest of it stays in one piece
              rw [if_neg hend] at h
              obtain rfl := Except.ok.inj h
              exact inserted_compound hn hk hs.spells hend hget (hs.spells.head? ▸ hopen) v
  | @index q digits tokens s hd hs ih =>
      cases n with
      | map | leaf | null => simp at ho
      | list items =>
          rw [insertInto] at h
          have hnormal : Normal (occupant (tokens.map Token.segment)
              items[Key.indexValue digits]?) := normal_occupant fun _ => hn.element
          by_cases hopen : (occupant (tokens.map Token.segment)
              items[Key.indexValue digits]?).opener = lead (tokens.map Token.segment)
          · rw [if_pos hopen] at h
            obtain ⟨c', hc', rfl⟩ := map_eq_ok.1 h
            refine (ih hnormal hopen hc').under_index hn ?_
            exact (occupant_cases (tokens.map Token.segment) _).imp And.left
              fun ⟨hfree, hblank⟩ => ⟨hfree, hblank ▸ vacant_blank _⟩
          · rw [if_neg hopen] at h
            split at h <;> contradiction

/-- Inserting a key into a normal document updates the scalars that the document holds at one tail. -/
theorem insertKey_inserted {m' : NodeMap} {key : List Char} {tokens : List Token}
    (hm : Normal (.map m)) (hs : Scanned 0 tokens ('.' :: key))
    (h : insertKey m v tokens = .ok m') :
    Inserted (.map m) (.map m') v (tokens.map Token.segment) ('.' :: key) := by
  apply inserted_of_insertInto hs hm hs.spells.head?
  rw [← insertKey_eq hs, h]
  rfl

end

end LayeredConfig.Structure
