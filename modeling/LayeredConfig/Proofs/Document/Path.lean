import LayeredConfig.Proofs.Document.NodeMap
import LayeredConfig.Proofs.Key.Plain

/-!
# Paths into a document

A path selects a node of a document.  Its names are those of the entries, so that a compound name is
one step of a path although its text reads as several segments.

* `at?` — the node at a path.
* `Held` — the scalars of a document under the tails that lead to them.  This is the flat view of a
  document that insertion is compared with.
* `ends` — all paths that lead to a scalar or to a null slot, in document order.
-/

namespace LayeredConfig.Node

open Key (Segment)
open Key.text (continued)

/-- The character with which a path goes on at a node. -/
def opener : Node → Option Char
  | .map _ => some '.'
  | .list _ => some '['
  | .leaf _ => none
  | .null => none

@[simp] theorem opener_map (m : NodeMap) : opener (.map m) = some '.' := rfl
@[simp] theorem opener_list (items : List Node) : opener (.list items) = some '[' := rfl
@[simp] theorem opener_leaf (v : Value) : opener (.leaf v) = none := rfl
@[simp] theorem opener_null : opener .null = none := rfl

/-- The node at a path. -/
def at? (n : Node) : List Segment → Option Node
  | [] => some n
  | .name k :: path =>
    match n with
    | .map m => (NodeMap.get? m k).bind fun c => c.at? path
    | _ => none
  | .index i :: path =>
    match n with
    | .list items => items[i]?.bind fun c => c.at? path
    | _ => none

@[simp] theorem at?_nil (n : Node) : n.at? [] = some n := rfl

theorem at?_name_eq_some {n a : Node} {k : String} {path : List Segment} :
    n.at? (.name k :: path) = some a ↔
      ∃ m c, n = .map m ∧ NodeMap.get? m k = some c ∧ c.at? path = some a := by
  cases n <;> simp [at?, Option.bind_eq_some_iff]

theorem at?_index_eq_some {n a : Node} {i : Nat} {path : List Segment} :
    n.at? (.index i :: path) = some a ↔
      ∃ items c, n = .list items ∧ items[i]? = some c ∧ c.at? path = some a := by
  cases n <;> simp [at?, Option.bind_eq_some_iff]

theorem at?_append (n : Node) (p q : List Segment) :
    n.at? (p ++ q) = (n.at? p).bind fun c => c.at? q := by
  induction p generalizing n with
  | nil => rfl
  | cons g p ih =>
      cases g with
      | name k =>
          cases n with
          | map m =>
              simp only [List.cons_append, at?, Option.bind_assoc]
              exact Option.bind_congr fun c _ => ih c
          | list | leaf | null => rfl
      | index i =>
          cases n with
          | list items =>
              simp only [List.cons_append, at?, Option.bind_assoc]
              exact Option.bind_congr fun c _ => ih c
          | map | leaf | null => rfl

theorem at?_append_eq_some {n a : Node} {p q : List Segment} :
    n.at? (p ++ q) = some a ↔ ∃ c, n.at? p = some c ∧ c.at? q = some a := by
  rw [at?_append, Option.bind_eq_some_iff]

/-- A path that goes on at a node goes on with the opener of the node. -/
theorem opener_eq_lead {n a : Node} {path : List Segment} (h : n.at? path = some a)
    (hne : path ≠ []) : n.opener = Key.lead path := by
  cases path with
  | nil => exact absurd rfl hne
  | cons g path =>
      cases g with
      | name k =>
          obtain ⟨m, c, rfl, -, -⟩ := at?_name_eq_some.1 h
          rfl
      | index i =>
          obtain ⟨items, c, rfl, -, -⟩ := at?_index_eq_some.1 h
          rfl

theorem head?_continued {n a : Node} {path : List Segment} (h : n.at? path = some a)
    (hne : path ≠ []) : (continued path).head? = n.opener := by
  rw [opener_eq_lead h hne, Key.head?_continued]

/-- A path ends at a scalar or a null slot. -/
theorem eq_nil_of_at? {n a : Node} {path : List Segment} (hn : n.opener = none)
    (h : n.at? path = some a) : path = [] := by
  by_contra hne
  obtain ⟨g, rest, rfl⟩ := List.exists_cons_of_ne_nil hne
  have hlead := opener_eq_lead h hne
  rw [hn, Key.lead_cons] at hlead
  contradiction

/-- The scalar under a tail. -/
def Held (n : Node) (t : List Char) (v : Value) : Prop :=
  ∃ path, n.at? path = some (.leaf v) ∧ continued path = t

theorem held_leaf {v w : Value} {t : List Char} : Held (.leaf v) t w ↔ t = [] ∧ w = v := by
  constructor
  · rintro ⟨path, hpath, rfl⟩
    obtain rfl := eq_nil_of_at? rfl hpath
    simpa [eq_comm] using hpath
  · rintro ⟨rfl, rfl⟩
    exact ⟨[], rfl, rfl⟩

theorem not_held_null {t : List Char} {w : Value} : ¬ Held .null t w := by
  rintro ⟨path, hpath, -⟩
  obtain rfl := eq_nil_of_at? rfl hpath
  simp at hpath

theorem held_map {m : NodeMap} {t : List Char} {w : Value} :
    Held (.map m) t w ↔
      ∃ k c u, NodeMap.get? m k = some c ∧ Held c u w ∧ t = '.' :: (k.toList ++ u) := by
  constructor
  · rintro ⟨path, hpath, rfl⟩
    cases path with
    | nil => simp at hpath
    | cons g path =>
        cases g with
        | name k =>
            obtain ⟨_, c, ⟨⟩, hc, hpath⟩ := at?_name_eq_some.1 hpath
            exact ⟨k, c, _, hc, ⟨path, hpath, rfl⟩, rfl⟩
        | index i => obtain ⟨_, _, ⟨⟩, -⟩ := at?_index_eq_some.1 hpath
  · rintro ⟨k, c, _, hc, ⟨path, hpath, rfl⟩, rfl⟩
    exact ⟨.name k :: path, at?_name_eq_some.2 ⟨m, c, rfl, hc, hpath⟩, rfl⟩

theorem held_list {items : List Node} {t : List Char} {w : Value} :
    Held (.list items) t w ↔
      ∃ i c u, items[i]? = some c ∧ Held c u w ∧
        t = '[' :: (Nat.toDigits 10 i ++ ']' :: u) := by
  constructor
  · rintro ⟨path, hpath, rfl⟩
    cases path with
    | nil => simp at hpath
    | cons g path =>
        cases g with
        | name k => obtain ⟨_, _, ⟨⟩, -⟩ := at?_name_eq_some.1 hpath
        | index i =>
            obtain ⟨_, c, ⟨⟩, hc, hpath⟩ := at?_index_eq_some.1 hpath
            exact ⟨i, c, _, hc, ⟨path, hpath, rfl⟩, rfl⟩
  · rintro ⟨i, c, _, hc, ⟨path, hpath, rfl⟩, rfl⟩
    exact ⟨.index i :: path, at?_index_eq_some.2 ⟨items, c, rfl, hc, hpath⟩, rfl⟩

/-- The tails of a node start with its opener, and the tail of a scalar is empty. -/
theorem Held.head? {n : Node} {t : List Char} {v : Value} (h : n.Held t v) :
    t.head? = n.opener := by
  cases n with
  | map m =>
      obtain ⟨k, c, u, -, -, rfl⟩ := held_map.1 h
      rfl
  | list items =>
      obtain ⟨i, c, u, -, -, rfl⟩ := held_list.1 h
      rfl
  | leaf w =>
      obtain ⟨rfl, -⟩ := held_leaf.1 h
      rfl
  | null => exact absurd h not_held_null

theorem Held.eq_nil_iff {n : Node} {t : List Char} {v : Value} (h : n.Held t v) :
    t = [] ↔ n.opener = none := by
  rw [← h.head?, List.head?_eq_none_iff]

theorem Held.detached {n : Node} {t : List Char} {v : Value} (h : n.Held t v) :
    Key.Detached t := by
  intro c hc
  rw [h.head?] at hc
  cases n <;> simp at hc <;> subst hc <;> rfl

mutual

/-- The paths that lead to a scalar or to a null slot, in document order; a null slot has no value. -/
def ends : Node → List (List Segment × Option Value)
  | .map entries => entryEnds entries
  | .list items => itemEnds 0 items
  | .leaf v => [([], some v)]
  | .null => [([], none)]

/-- The ends of map entries. -/
def entryEnds : List (String × Node) → List (List Segment × Option Value)
  | [] => []
  | (k, n) :: rest => (ends n).map (fun e => (.name k :: e.1, e.2)) ++ entryEnds rest

/-- The ends of list items, the first of which has the given index. -/
def itemEnds (index : Nat) : List Node → List (List Segment × Option Value)
  | [] => []
  | n :: rest => (ends n).map (fun e => (.index index :: e.1, e.2)) ++ itemEnds (index + 1) rest

end

theorem mem_entryEnds {entries : List (String × Node)} {e : List Segment × Option Value} :
    e ∈ entryEnds entries ↔
      ∃ k n path, (k, n) ∈ entries ∧ (path, e.2) ∈ ends n ∧ e.1 = .name k :: path := by
  induction entries with
  | nil => simp [entryEnds]
  | cons entry rest ih =>
      obtain ⟨k, n⟩ := entry
      obtain ⟨p, o⟩ := e
      simp only [entryEnds, List.mem_append, List.mem_map, ih, Prod.mk.injEq, Prod.exists,
        List.mem_cons]
      constructor
      · rintro (⟨path, _, hmem, rfl, rfl⟩ | ⟨k', n', path, hmem, h⟩)
        · exact ⟨k, n, path, .inl ⟨rfl, rfl⟩, hmem, rfl⟩
        · exact ⟨k', n', path, .inr hmem, h⟩
      · rintro ⟨k', n', path, ⟨rfl, rfl⟩ | hmem, h, rfl⟩
        · exact .inl ⟨path, o, h, rfl, rfl⟩
        · exact .inr ⟨k', n', path, hmem, h, rfl⟩

theorem mem_itemEnds {items : List Node} {index : Nat} {e : List Segment × Option Value} :
    e ∈ itemEnds index items ↔
      ∃ i n path, items[i]? = some n ∧ (path, e.2) ∈ ends n ∧ e.1 = .index (index + i) :: path := by
  induction items generalizing index with
  | nil => simp [itemEnds]
  | cons n rest ih =>
      obtain ⟨p, o⟩ := e
      simp only [itemEnds, List.mem_append, List.mem_map, ih, Prod.mk.injEq, Prod.exists]
      constructor
      · rintro (⟨path, _, hmem, rfl, rfl⟩ | ⟨i, n', path, hget, hmem, rfl⟩)
        · exact ⟨0, n, path, rfl, hmem, rfl⟩
        · exact ⟨i + 1, n', path, hget, hmem, by rw [Nat.add_assoc, Nat.add_comm 1 i]⟩
      · rintro ⟨i, n', path, hget, hmem, rfl⟩
        cases i with
        | zero =>
            obtain rfl : n = n' := by simpa using hget
            exact .inl ⟨path, o, hmem, rfl, rfl⟩
        | succ i =>
            exact .inr ⟨i, n', path, by simpa using hget, hmem,
              by rw [Nat.add_assoc, Nat.add_comm 1 i]⟩

end LayeredConfig.Node
