import LayeredConfig.Proofs.Document.NodeMap
import Mathlib

/-!
# Node maps with an index

A node map may keep a hash index of the positions of its names, so that a node is found without a
search.  The positions are then used without looking at the names again, and equality looks at the
entries only; both are right as long as the index says exactly where each name stands.

* `IndexedMap` — entries with an index; an access that finds nothing is a fault.
* `IndexedNode.agrees_eq` — equality of nodes is that of the nodes without their indices.
* `IndexedMap.Faithful` — the index gives the names present, each with its position.
* `IndexedMap.Faithful.follows_step` — an operation runs into no fault, keeps the index faithful, and
  does what it does to the plain entries.
* `IndexedMap.Faithful.exists_run`, `IndexedMap.run_empty_spec` — so does a run of operations.
-/

namespace LayeredConfig

/-- Entries in order, and the positions of their names. -/
structure IndexedMap (α : Type) where
  entries : List (String × α)
  index : Std.HashMap String Nat

/-- A node whose maps, at every depth, have an index. -/
inductive IndexedNode where
  | map (entries : IndexedMap IndexedNode)
  | list (items : List IndexedNode)
  | leaf (value : Value)
  | null

/-- An operation on a map of nodes. -/
inductive Operation (α : Type) where
  | get (key : String)
  | insert (key : String) (node : α)
  /-- Write to the place of a name that is present. -/
  | assign (key : String) (node : α)
  /-- Look up a name; if it is absent or holds a null, a node is made there first. -/
  | vacantOr (key : String) (made : α)

/-- An operation whose nodes are changed into others. -/
def Operation.map {α β : Type} (f : α → β) : Operation α → Operation β
  | .get key => .get key
  | .insert key node => .insert key (f node)
  | .assign key node => .assign key (f node)
  | .vacantOr key made => .vacantOr key (f made)

namespace IndexedMap

/-- What an access can run into. -/
inductive Fault where
  /-- There is no entry at a position. -/
  | outOfBounds (position : Nat)
  /-- A name that must be there has no position. -/
  | unindexed (key : String)

section

variable {α : Type}

def empty : IndexedMap α := ⟨[], ∅⟩

def length (t : IndexedMap α) : Nat := t.entries.length

def isEmpty (t : IndexedMap α) : Bool := t.entries.isEmpty

/-- The entry at a position that the index has given. -/
def entryAt (t : IndexedMap α) (i : Nat) : Except Fault (String × α) :=
  match t.entries[i]? with
  | some e => .ok e
  | none => .error (.outOfBounds i)

/-- The node under a name. -/
def get (t : IndexedMap α) (key : String) : Except Fault (Option α) :=
  match t.index[key]? with
  | some i => (t.entryAt i).map fun e => some e.2
  | none => .ok none

/-- Put a node into the entry at a position; the name and the index stay.  The node that was there is
given back. -/
def replaceAt (t : IndexedMap α) (i : Nat) (node : α) : Except Fault (Option α × IndexedMap α) :=
  (t.entryAt i).map fun e => (some e.2, { t with entries := t.entries.set i (e.1, node) })

/-- Put a node under a name; a node that is replaced is given back. -/
def insert (t : IndexedMap α) (key : String) (node : α) : Except Fault (Option α × IndexedMap α) :=
  match t.index[key]? with
  | some i => t.replaceAt i node
  | none => .ok (none, ⟨t.entries ++ [(key, node)], t.index.insert key t.entries.length⟩)

/-- Put a node under a name that is present. -/
def assign (t : IndexedMap α) (key : String) (node : α) : Except Fault (Option α × IndexedMap α) :=
  match t.index[key]? with
  | some i => t.replaceAt i node
  | none => .ok (none, t)

end

/-- The node under a name that must be present. -/
def fetch (t : IndexedMap IndexedNode) (key : String) : Except Fault IndexedNode :=
  match t.index[key]? with
  | some i => (t.entryAt i).map Prod.snd
  | none => .error (.unindexed key)

/-- Put a node under a name that is absent or holds a null. -/
def fillVacant (t : IndexedMap IndexedNode) (key : String) (made : IndexedNode) :
    Except Fault (IndexedMap IndexedNode) := do
  match ← t.get key with
  | none | some .null => (t.insert key made).map Prod.snd
  | some _ => return t

/-- The node under a name, made there if the name is absent or holds a null. -/
def vacantOr (t : IndexedMap IndexedNode) (key : String) (made : IndexedNode) :
    Except Fault (Option IndexedNode × IndexedMap IndexedNode) := do
  let filled ← t.fillVacant key made
  (filled.fetch key).map fun node => (some node, filled)

/-- Carry out an operation; the answer is the node that is found, replaced or made. -/
def step (t : IndexedMap IndexedNode) :
    Operation IndexedNode → Except Fault (Option IndexedNode × IndexedMap IndexedNode)
  | .get key => (t.get key).map fun node => (node, t)
  | .insert key node => t.insert key node
  | .assign key node => t.assign key node
  | .vacantOr key made => t.vacantOr key made

/-- Carry out operations one after another. -/
def run (t : IndexedMap IndexedNode) :
    List (Operation IndexedNode) → Except Fault (List (Option IndexedNode) × IndexedMap IndexedNode)
  | [] => .ok ([], t)
  | o :: rest => do
    let (answer, t) ← t.step o
    let (answers, t) ← t.run rest
    return (answer :: answers, t)

end IndexedMap

namespace IndexedNode

mutual

/-- Equality of nodes; it does not look at an index. -/
def agrees : IndexedNode → IndexedNode → Bool
  | .map ⟨xs, _⟩, .map ⟨ys, _⟩ => entriesAgree xs ys
  | .list xs, .list ys => itemsAgree xs ys
  | .leaf v, .leaf w => v.agrees w
  | .null, .null => true
  | _, _ => false

/-- Agreement of two lists of nodes. -/
def itemsAgree : List IndexedNode → List IndexedNode → Bool
  | [], [] => true
  | x :: xs, y :: ys => agrees x y && itemsAgree xs ys
  | _, _ => false

/-- Agreement of two lists of entries. -/
def entriesAgree : List (String × IndexedNode) → List (String × IndexedNode) → Bool
  | [], [] => true
  | (k, x) :: xs, (l, y) :: ys => k = l && agrees x y && entriesAgree xs ys
  | _, _ => false

end

mutual

/-- The node without its indices. -/
def plain : IndexedNode → Node
  | .map ⟨entries, _⟩ => .map (plainEntries entries)
  | .list items => .list (plainItems items)
  | .leaf v => .leaf v
  | .null => .null

/-- List items without their indices. -/
def plainItems : List IndexedNode → List Node
  | [] => []
  | n :: rest => plain n :: plainItems rest

/-- Map entries without their indices. -/
def plainEntries : List (String × IndexedNode) → List (String × Node)
  | [] => []
  | (k, n) :: rest => (k, plain n) :: plainEntries rest

end

theorem plainEntries_eq (entries : List (String × IndexedNode)) :
    plainEntries entries = entries.map fun e => (e.1, e.2.plain) := by
  induction entries with
  | nil => rfl
  | cons e rest ih => rw [plainEntries, ih, List.map_cons]

theorem plain_eq_null {n : IndexedNode} : n.plain = .null ↔ n = .null := by
  cases n <;> simp [plain]

mutual

/-- Nodes are equal exactly if they are without their indices, at every depth. -/
theorem agrees_eq (x y : IndexedNode) : x.agrees y = x.plain.agrees y.plain := by
  cases x with
  | map t =>
      cases y with
      | map u => rw [agrees, plain, plain, Node.agrees, entriesAgree_eq]
      | list | leaf | null => rfl
  | list xs =>
      cases y with
      | list ys => rw [agrees, plain, plain, Node.agrees, itemsAgree_eq]
      | map | leaf | null => rfl
  | leaf v => cases y <;> rfl
  | null => cases y <;> rfl

theorem itemsAgree_eq (xs ys : List IndexedNode) :
    itemsAgree xs ys = Node.itemsAgree (plainItems xs) (plainItems ys) := by
  cases xs with
  | nil => cases ys <;> rfl
  | cons x xs =>
      cases ys with
      | nil => rfl
      | cons y ys =>
          rw [itemsAgree, plainItems, plainItems, Node.itemsAgree, agrees_eq x y, itemsAgree_eq xs ys]

theorem entriesAgree_eq (xs ys : List (String × IndexedNode)) :
    entriesAgree xs ys = Node.entriesAgree (plainEntries xs) (plainEntries ys) := by
  cases xs with
  | nil => cases ys <;> rfl
  | cons e xs =>
      obtain ⟨k, x⟩ := e
      cases ys with
      | nil => rfl
      | cons e ys =>
          obtain ⟨l, y⟩ := e
          rw [entriesAgree, plainEntries, plainEntries, Node.entriesAgree, agrees_eq x y,
            entriesAgree_eq xs ys]

end

end IndexedNode

namespace Node

/-- Entries that are equal have the same names. -/
theorem names_eq_of_entriesAgree {xs ys : NodeMap} (h : entriesAgree xs ys = true) :
    xs.names = ys.names := by
  induction xs generalizing ys with
  | nil =>
      cases ys with
      | nil => rfl
      | cons => simp [entriesAgree] at h
  | cons e xs ih =>
      cases ys with
      | nil => simp [entriesAgree] at h
      | cons e' ys =>
          obtain ⟨⟨hname, -⟩, hrest⟩ :
              (e.1 = e'.1 ∧ e.2.agrees e'.2 = true) ∧ entriesAgree xs ys = true := by
            simpa [entriesAgree] using h
          exact congrArg₂ List.cons hname (ih hrest)

end Node

namespace NodeMap

/-- An operation on plain entries; the answer is the node that is found, replaced or made. -/
def step (m : NodeMap) : Operation Node → Option Node × NodeMap
  | .get key => (m.get? key, m)
  | .insert key node => (m.get? key, m.insert key node)
  | .assign key node => (m.get? key, (m.assign? key node).getD m)
  | .vacantOr key made => ((m.fillVacant key made).get? key, m.fillVacant key made)

/-- Operations on plain entries, one after another. -/
def run (m : NodeMap) : List (Operation Node) → List (Option Node) × NodeMap
  | [] => ([], m)
  | o :: rest =>
    let (answer, m) := m.step o
    let (answers, m) := run m rest
    (answer :: answers, m)

end NodeMap

namespace IndexedMap

/-- The entries without any index. -/
def plain (t : IndexedMap IndexedNode) : NodeMap := IndexedNode.plainEntries t.entries

/-- Equality of maps of nodes; it does not look at an index. -/
def agrees (t u : IndexedMap IndexedNode) : Bool := IndexedNode.entriesAgree t.entries u.entries

/-- The names in order. -/
def names {α : Type} (t : IndexedMap α) : List String := t.entries.map Prod.fst

/-- The index gives the names present, each with its position. -/
def Faithful {α : Type} (t : IndexedMap α) : Prop :=
  ∀ (key : String) (i : Nat), t.index[key]? = some i ↔ t.names[i]? = some key

section

variable {α : Type} {t : IndexedMap α} {key : String} {i : Nat}

theorem faithful_empty : Faithful (empty : IndexedMap α) := by
  simp [Faithful, empty, names]

/-- A name has one position, so the names are distinct. -/
theorem Faithful.nodup (h : Faithful t) : t.names.Nodup := by
  rw [List.nodup_iff_getElem?_ne_getElem?]
  intro i j hij hj heq
  have hkey := List.getElem?_eq_getElem hj
  have hi := (h _ i).2 (heq.trans hkey)
  have : i = j := by simpa [hi] using (h _ j).2 hkey
  omega

theorem Faithful.mem_names_iff (h : Faithful t) : key ∈ t.names ↔ ∃ i, t.index[key]? = some i := by
  simp only [List.mem_iff_getElem?, h key]

/-- A name that has a position stands there. -/
theorem Faithful.exists_entry (h : Faithful t) (hi : t.index[key]? = some i) :
    ∃ node, t.entries[i]? = some (key, node) := by
  have hname := (h key i).1 hi
  rw [names, List.getElem?_map, Option.map_eq_some_iff] at hname
  obtain ⟨⟨k, node⟩, hget, rfl⟩ := hname
  exact ⟨node, hget⟩

/-- Replacing the node at the position of a name keeps the names. -/
theorem Faithful.set (h : Faithful t) (hi : t.index[key]? = some i) (node : α) :
    Faithful { t with entries := t.entries.set i (key, node) } := by
  obtain ⟨hlt, hkey⟩ := List.getElem?_eq_some_iff.1 ((h key i).1 hi)
  intro k j
  rw [h k j]
  subst hkey
  simp only [names, List.map_set]
  rw [List.set_getElem_self]

/-- A new name goes behind all others, at the position that was the length. -/
theorem Faithful.append (h : Faithful t) (hnone : t.index[key]? = none) (node : α) :
    Faithful ⟨t.entries ++ [(key, node)], t.index.insert key t.entries.length⟩ := by
  have hnew : key ∉ t.names := by simp [h.mem_names_iff, hnone]
  have hlength : t.names.length = t.entries.length := List.length_map _
  intro k j
  have hnames : names ⟨t.entries ++ [(key, node)], t.index.insert key t.entries.length⟩ =
      t.names ++ [key] := List.map_append
  have hconcat : (t.names ++ [key])[j]? = some k ↔
      t.names[j]? = some k ∨ j = t.names.length ∧ key = k := by grind
  rw [hnames, hconcat, Std.HashMap.getElem?_insert, ← hlength]
  by_cases hk : key = k
  · subst hk
    have hold : t.names[j]? ≠ some key := fun hj => hnew (List.mem_of_getElem? hj)
    simp [hold, eq_comm]
  · simp [hk, h k j]

end

section

variable {t : IndexedMap IndexedNode} {key : String} {i : Nat}

theorem names_plain (t : IndexedMap IndexedNode) : t.plain.names = t.names := by
  simp [plain, IndexedNode.plainEntries_eq, NodeMap.names, names]

theorem getElem?_plain (t : IndexedMap IndexedNode) (i : Nat) :
    t.plain[i]? = t.entries[i]?.map fun e => (e.1, e.2.plain) := by
  rw [plain, IndexedNode.plainEntries_eq, List.getElem?_map]

theorem plain_set (t : IndexedMap IndexedNode) (i : Nat) (key : String) (node : IndexedNode) :
    plain { t with entries := t.entries.set i (key, node) } = t.plain.set i (key, node.plain) := by
  simp [plain, IndexedNode.plainEntries_eq, List.map_set]

theorem plain_append (t : IndexedMap IndexedNode) (key : String) (node : IndexedNode)
    (index : Std.HashMap String Nat) :
    plain ⟨t.entries ++ [(key, node)], index⟩ = t.plain ++ [(key, node.plain)] := by
  simp [plain, IndexedNode.plainEntries_eq]

/-- The position that a search finds is that of the index. -/
theorem Faithful.position? (h : Faithful t) (key : String) :
    t.plain.position? key = t.index[key]? := by
  have hsearch : t.plain.position? key = t.names.findIdx? (· = key) := by
    rw [← names_plain, NodeMap.names, List.findIdx?_map]
    rfl
  rw [hsearch]
  cases hi : t.index[key]? with
  | none =>
      rw [List.findIdx?_eq_none_iff]
      rintro k hk
      obtain ⟨i, hget⟩ := h.mem_names_iff.1 hk
      rw [decide_eq_false_iff_not]
      rintro rfl
      simp [hi] at hget
  | some i =>
      obtain ⟨hlt, hname⟩ := List.getElem?_eq_some_iff.1 ((h key i).1 hi)
      refine List.findIdx?_eq_some_iff_getElem.2 ⟨hlt, by simpa using hname, ?_⟩
      intro j hj hfound
      have hget : t.index[key]? = some j :=
        (h key j).2 (List.getElem?_eq_some_iff.2 ⟨by omega, by simpa using hfound⟩)
      have : i = j := by simpa [hi] using hget
      omega

theorem Faithful.get?_of_some (h : Faithful t) {node : IndexedNode}
    (hi : t.index[key]? = some i) (hget : t.entries[i]? = some (key, node)) :
    t.plain.get? key = some node.plain := by
  simp [NodeMap.get?, h.position?, hi, getElem?_plain, hget]

theorem Faithful.get?_of_none (h : Faithful t) (hi : t.index[key]? = none) :
    t.plain.get? key = none := by
  simp [NodeMap.get?, h.position?, hi]

theorem Faithful.exists_get (h : Faithful t) (key : String) :
    ∃ found, t.get key = .ok found ∧ found.map IndexedNode.plain = t.plain.get? key := by
  cases hi : t.index[key]? with
  | none => exact ⟨none, by simp [get, hi], by simp [h.get?_of_none hi]⟩
  | some i =>
      obtain ⟨node, hget⟩ := h.exists_entry hi
      exact ⟨some node, by simp [get, hi, entryAt, hget, Except.map],
        by simp [h.get?_of_some hi hget]⟩

theorem Faithful.exists_fetch (h : Faithful t) {n : Node} (hn : t.plain.get? key = some n) :
    ∃ node, t.fetch key = .ok node ∧ node.plain = n := by
  cases hi : t.index[key]? with
  | none => simp [h.get?_of_none hi] at hn
  | some i =>
      obtain ⟨node, hget⟩ := h.exists_entry hi
      rw [h.get?_of_some hi hget] at hn
      exact ⟨node, by simp [fetch, hi, entryAt, hget, Except.map], Option.some.inj hn⟩

/-- What an operation gives is what it gives on plain entries: it runs into no fault, keeps the index
faithful, and answers the same. -/
def Follows (result : Except Fault (Option IndexedNode × IndexedMap IndexedNode))
    (spec : Option Node × NodeMap) : Prop :=
  ∃ answer t, result = .ok (answer, t) ∧ t.Faithful ∧ (answer.map IndexedNode.plain, t.plain) = spec

theorem Faithful.follows_get (h : Faithful t) (key : String) :
    Follows (t.step (.get key)) (t.plain.step (.get key)) := by
  obtain ⟨found, hget, hplain⟩ := h.exists_get key
  exact ⟨found, t, by simp [step, hget, Except.map], h, by rw [hplain]; rfl⟩

theorem Faithful.follows_replaceAt (h : Faithful t) (hi : t.index[key]? = some i)
    (node : IndexedNode) :
    Follows (t.replaceAt i node) (t.plain.get? key, t.plain.set i (key, node.plain)) := by
  obtain ⟨old, hget⟩ := h.exists_entry hi
  refine ⟨some old, _, by simp [replaceAt, entryAt, hget, Except.map], h.set hi node, ?_⟩
  rw [h.get?_of_some hi hget, plain_set]
  rfl

theorem Faithful.follows_insert (h : Faithful t) (key : String) (node : IndexedNode) :
    Follows (t.insert key node) (t.plain.get? key, t.plain.insert key node.plain) := by
  cases hi : t.index[key]? with
  | none =>
      refine ⟨none, _, by simp [insert, hi], h.append hi node, ?_⟩
      simp [h.get?_of_none hi, plain_append, NodeMap.insert, h.position?, hi]
  | some i => simpa [insert, NodeMap.insert, h.position?, hi] using h.follows_replaceAt hi node

theorem Faithful.follows_assign (h : Faithful t) (key : String) (node : IndexedNode) :
    Follows (t.assign key node)
      (t.plain.get? key, (t.plain.assign? key node.plain).getD t.plain) := by
  cases hi : t.index[key]? with
  | none =>
      refine ⟨none, t, by simp [assign, hi], h, ?_⟩
      simp [h.get?_of_none hi, NodeMap.assign?, h.position?, hi]
  | some i => simpa [assign, NodeMap.assign?, h.position?, hi] using h.follows_replaceAt hi node

theorem Faithful.exists_fillVacant (h : Faithful t) (key : String) (made : IndexedNode) :
    ∃ filled, t.fillVacant key made = .ok filled ∧ filled.Faithful ∧
      filled.plain = t.plain.fillVacant key made.plain := by
  obtain ⟨found, hget, hplain⟩ := h.exists_get key
  obtain ⟨old, inserted, hinsert, hfaithful, hspec⟩ := h.follows_insert key made
  obtain ⟨-, hentries⟩ := Prod.mk.inj hspec
  by_cases hvacant : found = none ∨ found = some .null
  · have hfill : t.fillVacant key made = .ok inserted := by
      rw [fillVacant, hget]
      rcases hvacant with rfl | rfl <;> exact congrArg (Except.map Prod.snd) hinsert
    refine ⟨inserted, hfill, hfaithful, hentries.trans ?_⟩
    rcases hvacant with rfl | rfl
    · exact (NodeMap.fillVacant_of_none _ hplain.symm).symm
    · exact (NodeMap.fillVacant_of_null _ hplain.symm).symm
  · obtain ⟨hnone, hnull⟩ := not_or.1 hvacant
    obtain ⟨node, rfl⟩ := Option.ne_none_iff_exists'.1 hnone
    have hplainNull : node.plain ≠ .null := fun hn => hnull (by rw [IndexedNode.plain_eq_null.1 hn])
    refine ⟨t, ?_, h, (NodeMap.fillVacant_of_some _ hplain.symm hplainNull).symm⟩
    rw [fillVacant, hget]
    cases node with
    | null => exact absurd rfl hnull
    | map | list | leaf => rfl

theorem Faithful.follows_vacantOr (h : Faithful t) (key : String) (made : IndexedNode) :
    Follows (t.vacantOr key made)
      ((t.plain.fillVacant key made.plain).get? key, t.plain.fillVacant key made.plain) := by
  obtain ⟨filled, hfill, hfaithful, hplain⟩ := h.exists_fillVacant key made
  -- the place that has been filled has an index
  obtain ⟨n, hn⟩ := NodeMap.exists_get?_fillVacant t.plain key made.plain
  rw [← hplain] at hn ⊢
  obtain ⟨node, hfetch, rfl⟩ := hfaithful.exists_fetch hn
  refine ⟨some node, filled, ?_, hfaithful, by rw [hn]; rfl⟩
  rw [vacantOr, hfill]
  exact congrArg (Except.map fun node => (some node, filled)) hfetch

/-- An operation follows the one on plain entries. -/
theorem Faithful.follows_step (h : Faithful t) (o : Operation IndexedNode) :
    Follows (t.step o) (t.plain.step (o.map IndexedNode.plain)) := by
  cases o with
  | get key => exact h.follows_get key
  | insert key node => exact h.follows_insert key node
  | assign key node => exact h.follows_assign key node
  | vacantOr key made => exact h.follows_vacantOr key made

/-- So do operations one after another. -/
theorem Faithful.exists_run (h : Faithful t) (os : List (Operation IndexedNode)) :
    ∃ answers t', t.run os = .ok (answers, t') ∧ t'.Faithful ∧
      (answers.map (Option.map IndexedNode.plain), t'.plain) =
        t.plain.run (os.map (Operation.map IndexedNode.plain)) := by
  induction os generalizing t with
  | nil => exact ⟨[], t, rfl, h, rfl⟩
  | cons o os ih =>
      obtain ⟨answer, t₁, hstep, hfaithful, hspec⟩ := h.follows_step o
      obtain ⟨answers, t₂, hrun, hfaithful₂, hspec₂⟩ := ih hfaithful
      refine ⟨answer :: answers, t₂, ?_, hfaithful₂, ?_⟩
      · rw [run, hstep]
        exact congrArg (Except.map fun r => (answer :: r.1, r.2)) hrun
      · simp only [List.map_cons, NodeMap.run, ← hspec, ← hspec₂]

/-- With equal entries, faithful indices are equal. -/
theorem Faithful.index_eq {u : IndexedMap IndexedNode} (h : Faithful t) (hu : Faithful u)
    (hagrees : t.agrees u = true) (key : String) : t.index[key]? = u.index[key]? := by
  have hnames : t.names = u.names := by
    rw [agrees, IndexedNode.entriesAgree_eq] at hagrees
    rw [← names_plain, ← names_plain]
    exact Node.names_eq_of_entriesAgree hagrees
  ext i
  rw [h key i, hu key i, hnames]

/-- What an indexed map shows of plain entries: they come in their order, under distinct names, and the index
gives the position of each name that is there. -/
structure Models (t : IndexedMap IndexedNode) (m : NodeMap) : Prop where
  index : ∀ (key : String) (i : Nat), t.index[key]? = some i ↔ m.names[i]? = some key
  nodup : m.names.Nodup
  entries : t.entries.map (fun e => (e.1, e.2.plain)) = m
  length : t.length = m.length
  isEmpty : t.isEmpty = m.isEmpty

theorem Faithful.models (h : Faithful t) : Models t t.plain := by
  have hentries : t.entries.map (fun e => (e.1, e.2.plain)) = t.plain :=
    (IndexedNode.plainEntries_eq t.entries).symm
  refine ⟨?_, ?_, hentries, ?_, ?_⟩
  · rw [names_plain]
    exact h
  · rw [names_plain]
    exact h.nodup
  · rw [← hentries, List.length_map, length]
  · rw [← hentries, List.isEmpty_map, isEmpty]

end

/-- The same operations on plain entries, from none on. -/
def plainRun (os : List (Operation IndexedNode)) : List (Option Node) × NodeMap :=
  NodeMap.run [] (os.map (Operation.map IndexedNode.plain))

/-- Operations on an empty map run into no fault, answer as they do on plain entries, and keep the index
in step with them.  The maps of two runs are equal exactly if the plain entries are, and then their
indices give the same positions. -/
theorem run_empty_spec (os os' : List (Operation IndexedNode)) :
    ∃ answers t answers' t', run empty os = .ok (answers, t) ∧ run empty os' = .ok (answers', t') ∧
      answers.map (Option.map IndexedNode.plain) = (plainRun os).1 ∧ Models t (plainRun os).2 ∧
        t.agrees t' = Node.entriesAgree (plainRun os).2 (plainRun os').2 ∧
          (t.agrees t' = true → ∀ key : String, t.index[key]? = t'.index[key]?) := by
  obtain ⟨answers, t, hrun, h, hspec⟩ := faithful_empty.exists_run os
  obtain ⟨answers', t', hrun', h', hspec'⟩ := faithful_empty.exists_run os'
  have hplain : (answers.map (Option.map IndexedNode.plain), t.plain) = plainRun os := hspec
  have hplain' : (answers'.map (Option.map IndexedNode.plain), t'.plain) = plainRun os' := hspec'
  refine ⟨answers, t, answers', t', hrun, hrun', ?_, ?_, ?_, h.index_eq h'⟩
  · rw [← hplain]
  · rw [← hplain]
    exact h.models
  · rw [← hplain, ← hplain']
    exact IndexedNode.entriesAgree_eq t.entries t'.entries

example : plainRun [.vacantOr "a" (.list []), .insert "b" .null, .insert "a" (.leaf .null), .get "b"] =
    ([some (.list []), none, some (.list []), some .null], [("a", .leaf .null), ("b", .null)]) := by
  cbv

end IndexedMap

end LayeredConfig
