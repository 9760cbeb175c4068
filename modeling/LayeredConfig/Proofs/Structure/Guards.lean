import LayeredConfig.Proofs.Key.Grammar
import LayeredConfig.Proofs.Structure.Run

/-!
# Insertion under guard

An insertion relies on what has been arranged before: that a map is reached with a name and a list with an
index, that a container just made is there, that an element can be reached, that a length fits a machine
word, that a key can be cut where a segment starts.  A guarded insertion checks all this at every
step, and has an outcome of its own for each check that fails.

* `Guarded.Sound` — what reading a key leaves for the checks.
* `Guarded.intoMap_eq`, `Guarded.intoList_eq` — no check fails while a key is inserted.
* `Guarded.build_eq` — so none fails while a document is built.
-/

namespace LayeredConfig.Structure

open Key (Segment Token)

namespace Guarded

/-- How a guarded insertion fails: by a problem of the key, or by a check. -/
inductive Fault where
  | problem (cause : Key.Problem)
  /-- A map is reached with an index. -/
  | nameExpected
  /-- A list is reached with a name. -/
  | indexExpected
  /-- The length of a list does not fit 64 bits. -/
  | lengthOverflow
  /-- A place that has just been filled holds something else. -/
  | unreachable
  /-- A segment or an element is not there. -/
  | outOfBounds
  /-- The key cannot be cut where a segment starts. -/
  | unsliceable

/-- The kinds of nodes. -/
inductive Kind where
  | map
  | list
  | leaf
  | null
  deriving DecidableEq

/-- The kind of a node. -/
def kind : Node → Kind
  | .map _ => .map
  | .list _ => .list
  | .leaf _ => .leaf
  | .null => .null

/-- Keep the key from a segment on as one name. -/
def keep (key : List Char) (m : NodeMap) (offset : Nat) (value : Value) : Except Fault NodeMap :=
  match Text.from? offset key with
  | none => .error .unsliceable
  | some text => .ok (m.insert (String.ofList text) (.leaf value))

mutual

/-- Insert a value into a map under the segments of a key. -/
def intoMap (key : List Char) (m : NodeMap) (value : Value) : List Token → Except Fault NodeMap
  | [] => .error .outOfBounds
  | ⟨.index _, _, _⟩ :: _ => .error .nameExpected
  | [⟨.name name, _, _⟩] => .ok (assign m name value)
  | ⟨.name name, offset, _⟩ :: next :: tokens =>
    let occupant := (m.get? name).map kind
    match next.segment with
    | .name _ =>
      if occupant = none ∨ occupant = some .null ∨ occupant = some .map then
        let m := m.fillVacant name (.map [])
        match m.get? name with
        | some (.map child) =>
          (intoMap key child value (next :: tokens)).map fun child => m.insert name (.map child)
        | some _ => .error .unreachable
        | none => .error .outOfBounds
      else keep key m offset value
    | .index _ =>
      if occupant = none ∨ occupant = some .null ∨ occupant = some .list then
        let m := m.fillVacant name (.list [])
        match m.get? name with
        | some (.list child) =>
          (intoList key child value (next :: tokens)).map fun child => m.insert name (.list child)
        | some _ => .error .unreachable
        | none => .error .outOfBounds
      else keep key m offset value

/-- Insert a value into a list under the segments of a key. -/
def intoList (key : List Char) (items : List Node) (value : Value) : List Token → Except Fault (List Node)
  | [] => .error .outOfBounds
  | ⟨.name _, _, _⟩ :: _ => .error .indexExpected
  | ⟨.index i, _, _⟩ :: tokens =>
    if items.length ≤ i ∧ UInt64.size ≤ i + 1 then .error .lengthOverflow
    else
      let items := padTo items i
      match items[i]? with
      | none => .error .outOfBounds
      | some slot =>
        match tokens with
        | [] =>
          if kind slot = .map ∨ kind slot = .list then .error (.problem (.nestedElement i))
          else .ok (items.set i (.leaf value))
        | next :: tokens =>
          match next.segment with
          | .name _ =>
            if kind slot = .null ∨ kind slot = .map then
              match (if kind slot = .null then .map [] else slot) with
              | .map child =>
                (intoMap key child value (next :: tokens)).map fun child => items.set i (.map child)
              | _ => .error .unreachable
            else .error (.problem (.elementConflict i))
          | .index _ =>
            if kind slot = .null ∨ kind slot = .list then
              match (if kind slot = .null then .list [] else slot) with
              | .list child =>
                (intoList key child value (next :: tokens)).map fun child => items.set i (.list child)
              | _ => .error .unreachable
            else .error (.problem (.elementConflict i))

end

/-- Insert properties one after another. -/
def insertAll (m : NodeMap) : List (String × Value) → Except (String × Fault) NodeMap
  | [] => .ok m
  | (key, value) :: rest =>
    match Key.parse key with
    | .error problem => .error (key, .problem problem)
    | .ok tokens =>
      match intoMap key.toList m value tokens with
      | .ok m => insertAll m rest
      | .error fault => .error (key, fault)

/-- The document of flat properties. -/
def build (flat : Properties) : Except (String × Fault) NodeMap := insertAll [] flat.entries

/-! ## No check fails -/

variable {key : List Char} {t : Token} {tokens : List Token}

/-- The tokens of a key as they are left by reading it: it can be cut at each of them, and indices are in
range. -/
def Sound (key : List Char) (tokens : List Token) : Prop :=
  ∀ t ∈ tokens, Text.from? t.offset key = some t.remainder ∧ ∀ i, t.segment = .index i → i ≤ Key.maxIndex

theorem sound_cons :
    Sound key (t :: tokens) ↔
      (Text.from? t.offset key = some t.remainder ∧ ∀ i, t.segment = .index i → i ≤ Key.maxIndex) ∧
        Sound key tokens :=
  List.forall_mem_cons

/-- A list that is grown to an index in range has a length that fits. -/
theorem sound_fits {i p : Nat} {text : List Char}
    (h : Sound key (⟨.index i, p, text⟩ :: tokens)) (length : Nat) :
    ¬ (length ≤ i ∧ UInt64.size ≤ i + 1) := by
  have hrange : i ≤ Key.maxIndex := (sound_cons.1 h).1.2 i rfl
  simp only [Key.maxIndex] at hrange
  simp only [UInt64.size]
  omega

theorem mapError_map {ε ε' α β : Type} (f : α → β) (g : ε → ε') (x : Except ε α) :
    (x.map f).mapError g = (x.mapError g).map f := by
  cases x <;> rfl

theorem keep_eq {m : NodeMap} {p : Nat} {text : List Char} {v : Value}
    (h : Text.from? p key = some text) :
    keep key m p v = .ok (m.insert (String.ofList text) (.leaf v)) := by
  rw [keep, h]

mutual

theorem intoMap_eq (m : NodeMap) (name : String) (p : Nat) (text : List Char) (v : Value) :
    ∀ tokens, Sound key (⟨.name name, p, text⟩ :: tokens) →
      intoMap key m v (⟨.name name, p, text⟩ :: tokens) =
        (insertAt m name text v tokens).mapError Fault.problem
  | [], _ => by
    rw [intoMap, insertAt]
    rfl
  | ⟨.name x, q, next⟩ :: tokens, h => by
    obtain ⟨⟨hcut, -⟩, hrest⟩ := sound_cons.1 h
    have hchild := fun child => intoMap_eq child x q next v tokens hrest
    -- by what the name holds: nothing, a map or null can be gone into, the rest is kept beside
    rw [intoMap, insertAt]
    rcases hget : m.get? name with _ | (child | items | w | _)
    · simp [NodeMap.fillVacant_of_none _ hget, NodeMap.get?_insert_self, hchild, mapError_map]
    · simp [NodeMap.fillVacant_of_some _ hget, hget, kind, hchild, mapError_map]
    · simp [NodeMap.fillVacant_of_some _ hget, hget, kind, keep_eq hcut, Except.mapError]
    · simp [NodeMap.fillVacant_of_some _ hget, hget, kind, keep_eq hcut, Except.mapError]
    · simp [NodeMap.fillVacant_of_null _ hget, NodeMap.get?_insert_self, kind, hchild, mapError_map]
  | ⟨.index j, q, next⟩ :: tokens, h => by
    obtain ⟨⟨hcut, -⟩, hrest⟩ := sound_cons.1 h
    have hchild := fun child => intoList_eq child j q next v tokens hrest
    -- the same, with a list in the place of the map
    rw [intoMap, insertAt]
    rcases hget : m.get? name with _ | (child | items | w | _)
    · simp [NodeMap.fillVacant_of_none _ hget, NodeMap.get?_insert_self, hchild, mapError_map]
    · simp [NodeMap.fillVacant_of_some _ hget, hget, kind, keep_eq hcut, Except.mapError]
    · simp [NodeMap.fillVacant_of_some _ hget, hget, kind, hchild, mapError_map]
    · simp [NodeMap.fillVacant_of_some _ hget, hget, kind, keep_eq hcut, Except.mapError]
    · simp [NodeMap.fillVacant_of_null _ hget, NodeMap.get?_insert_self, kind, hchild, mapError_map]

theorem intoList_eq (items : List Node) (i p : Nat) (text : List Char) (v : Value) :
    ∀ tokens, Sound key (⟨.index i, p, text⟩ :: tokens) →
      intoList key items v (⟨.index i, p, text⟩ :: tokens) =
        (insertElement items i v tokens).mapError Fault.problem
  | [], h => by
    have hfits := sound_fits h items.length
    -- after padding there is an element at the index, and both insertions look at the same one
    obtain ⟨slot, hslot⟩ : ∃ slot, items[i]?.getD .null = slot := ⟨_, rfl⟩
    rw [intoList, insertElement, if_neg hfits]
    simp only [getElem?_padTo_self, hslot]
    cases slot <;> simp [kind, Except.mapError]
  | ⟨.name x, q, next⟩ :: tokens, h => by
    have hfits := sound_fits h items.length
    have hchild := fun child => intoMap_eq child x q next v tokens (sound_cons.1 h).2
    obtain ⟨slot, hslot⟩ : ∃ slot, items[i]?.getD .null = slot := ⟨_, rfl⟩
    rw [intoList, insertElement, if_neg hfits]
    simp only [getElem?_padTo_self, hslot]
    cases slot with
    | map child => simp [kind, hchild, mapError_map]
    | null => simp [kind, hchild, mapError_map]
    | list children => simp [kind, Except.mapError]
    | leaf w => simp [kind, Except.mapError]
  | ⟨.index j, q, next⟩ :: tokens, h => by
    have hfits := sound_fits h items.length
    have hchild := fun child => intoList_eq child j q next v tokens (sound_cons.1 h).2
    obtain ⟨slot, hslot⟩ : ∃ slot, items[i]?.getD .null = slot := ⟨_, rfl⟩
    rw [intoList, insertElement, if_neg hfits]
    simp only [getElem?_padTo_self, hslot]
    cases slot with
    | list child => simp [kind, hchild, mapError_map]
    | null => simp [kind, hchild, mapError_map]
    | map children => simp [kind, Except.mapError]
    | leaf w => simp [kind, Except.mapError]

end

/-! ## From reading to building -/

/-- Reading a key leaves sound tokens. -/
theorem sound_of_parse {k : String} (h : Key.parse k = .ok tokens) : Sound k.toList tokens := by
  intro t ht
  have hvalid := (Key.parse_eq_ok_iff.1 h).spells.isSegment t.segment (List.mem_map_of_mem ht)
  obtain ⟨before, after, rfl⟩ := List.append_of_mem ht
  refine ⟨(Key.standsAt_of_parse h).1, fun i hi => ?_⟩
  rw [hi] at hvalid
  exact hvalid

/-- A key that has been read goes into a map without a failing check: it starts with a name. -/
theorem intoMap_eq_insertKey {k : String} (h : Key.parse k = .ok tokens) (m : NodeMap) (v : Value) :
    intoMap k.toList m v tokens = (insertKey m v tokens).mapError Fault.problem := by
  have hsound := sound_of_parse h
  have hscan := Key.parse_eq_ok_iff.1 h
  generalize htext : '.' :: k.toList = s at hscan
  cases hscan with
  | nil => simp at htext
  | name hn hrest => exact intoMap_eq m _ _ _ v _ hsound

/-- What a run under guard reports for a key that cannot be read or placed. -/
def reported (e : InvalidKey) : String × Fault := (e.key, .problem e.problem)

theorem insertAll_eq (m : NodeMap) (entries : List (String × Value)) :
    insertAll m entries = (Structure.insertAll m entries).mapError reported := by
  induction entries generalizing m with
  | nil => rfl
  | cons e rest ih =>
      obtain ⟨key, value⟩ := e
      rw [insertAll, Structure.insertAll]
      cases hparse : Key.parse key with
      | error problem => rfl
      | ok tokens =>
          simp only [Except.bind, intoMap_eq_insertKey hparse]
          cases insertKey m value tokens with
          | ok m' => exact ih m'
          | error problem => rfl

/-- No check fails while a document is built. -/
theorem build_eq (flat : Properties) :
    build flat = (Structure.build flat).mapError reported :=
  insertAll_eq [] flat.entries

end Guarded

end LayeredConfig.Structure
