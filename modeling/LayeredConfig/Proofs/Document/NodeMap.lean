import LayeredConfig.Node

/-!
# Node maps as finite maps

What the operations of a node map do to the node found under a name, to the names in order, and to
their being distinct.
-/

namespace LayeredConfig.NodeMap

/-- The names of a node map, in order. -/
def names (m : NodeMap) : List String := m.map Prod.fst

@[simp] theorem get?_nil (key : String) : get? [] key = none := rfl

theorem get?_cons (k : String) (n : Node) (m : NodeMap) (key : String) :
    get? ((k, n) :: m) key = if k = key then some n else m.get? key := by
  by_cases h : k = key
  · simp [get?, position?, List.findIdx?_cons, h]
  · simp only [get?, position?, List.findIdx?_cons, h, decide_false, if_false]
    cases List.findIdx? (fun e => decide (e.1 = key)) m <;> simp

@[simp] theorem insert_nil (key : String) (node : Node) : insert [] key node = [(key, node)] := rfl

theorem insert_cons (k : String) (n : Node) (m : NodeMap) (key : String) (node : Node) :
    insert ((k, n) :: m) key node =
      if k = key then (key, node) :: m else (k, n) :: m.insert key node := by
  by_cases h : k = key
  · simp [insert, position?, List.findIdx?_cons, h]
  · simp only [insert, position?, List.findIdx?_cons, h, decide_false, if_false]
    cases List.findIdx? (fun e => decide (e.1 = key)) m <;> simp

theorem get?_insert (m : NodeMap) (key : String) (node : Node) (k : String) :
    (m.insert key node).get? k = if k = key then some node else m.get? k := by
  induction m with
  | nil => simp [get?_cons, eq_comm]
  | cons e m ih =>
      obtain ⟨k', n⟩ := e
      rw [insert_cons]
      by_cases hk : k' = key
      · subst hk
        by_cases h : k = k'
        · simp [get?_cons, h]
        · simp [get?_cons, h, Ne.symm h]
      · rw [if_neg hk, get?_cons, get?_cons, ih]
        by_cases h : k' = k
        · subst h
          simp [hk]
        · simp [h]

@[simp] theorem get?_insert_self (m : NodeMap) (key : String) (node : Node) :
    (m.insert key node).get? key = some node := by
  simp [get?_insert]

theorem get?_insert_of_ne {m : NodeMap} {key : String} {node : Node} {k : String} (h : k ≠ key) :
    (m.insert key node).get? k = m.get? k := by
  simp [get?_insert, h]

theorem mem_names_iff {m : NodeMap} {key : String} : key ∈ m.names ↔ ∃ n, m.get? key = some n := by
  induction m with
  | nil => simp [names]
  | cons e m ih =>
      obtain ⟨k, n⟩ := e
      by_cases h : k = key
      · simp [names, get?_cons, h]
      · simpa [names, get?_cons, h, Ne.symm h] using ih

theorem get?_eq_none_iff {m : NodeMap} {key : String} : m.get? key = none ↔ key ∉ m.names := by
  rw [mem_names_iff, Option.eq_none_iff_forall_ne_some, not_exists]

/-- A new name goes behind all others. -/
theorem insert_of_not_mem {m : NodeMap} {key : String} (node : Node) (h : key ∉ m.names) :
    m.insert key node = m ++ [(key, node)] := by
  induction m with
  | nil => rfl
  | cons e m ih =>
      obtain ⟨k, n⟩ := e
      simp only [names, List.map_cons, List.mem_cons, not_or] at h
      rw [insert_cons, if_neg (Ne.symm h.1), ih h.2]
      rfl

theorem names_insert_of_mem {m : NodeMap} {key : String} (node : Node) (h : key ∈ m.names) :
    (m.insert key node).names = m.names := by
  induction m with
  | nil => simp [names] at h
  | cons e m ih =>
      obtain ⟨k, n⟩ := e
      rw [insert_cons]
      by_cases hk : k = key
      · simp [names, hk]
      · have hm : key ∈ names m := by simpa [names, Ne.symm hk] using h
        simpa [names, hk] using ih hm

theorem nodup_names_insert {m : NodeMap} (key : String) (node : Node) (h : m.names.Nodup) :
    (m.insert key node).names.Nodup := by
  by_cases hm : key ∈ m.names
  · rwa [names_insert_of_mem node hm]
  · rw [insert_of_not_mem node hm]
    show (m ++ [(key, node)] |>.map Prod.fst).Nodup
    rw [List.map_append, List.nodup_append]
    refine ⟨h, by simp, ?_⟩
    intro a ha b hb hab
    obtain rfl : b = key := by simpa using hb
    exact hm (hab ▸ ha)

/-- With distinct names, the entries are what is found under the names. -/
theorem mem_iff_get? {m : NodeMap} (h : m.names.Nodup) {key : String} {n : Node} :
    (key, n) ∈ m ↔ m.get? key = some n := by
  induction m with
  | nil => simp
  | cons e m ih =>
      obtain ⟨k, n'⟩ := e
      simp only [names, List.map_cons, List.nodup_cons] at h
      rw [get?_cons, List.mem_cons, ih h.2]
      by_cases hk : k = key
      · subst hk
        have hnone : NodeMap.get? m k = none := get?_eq_none_iff.2 h.1
        simp [hnone, eq_comm]
      · simp [hk, Ne.symm hk]

theorem insert_ne_nil (m : NodeMap) (key : String) (node : Node) : m.insert key node ≠ [] := by
  cases m with
  | nil => simp
  | cons e m =>
      rw [insert_cons]
      split <;> simp

theorem insert_insert (m : NodeMap) (key : String) (a b : Node) :
    (m.insert key a).insert key b = m.insert key b := by
  induction m with
  | nil => simp [insert_cons]
  | cons e m ih =>
      obtain ⟨k, n⟩ := e
      by_cases h : k = key
      · simp [insert_cons, h]
      · simp only [insert_cons, h, if_false]
        exact congrArg _ ih

theorem insert_of_get? {m : NodeMap} {key : String} {n : Node} (h : m.get? key = some n) :
    m.insert key n = m := by
  induction m with
  | nil => simp at h
  | cons e m ih =>
      obtain ⟨k, n'⟩ := e
      rw [get?_cons] at h
      rw [insert_cons]
      split at h
      · obtain rfl : n' = n := by simpa using h
        simp [*]
      · rw [if_neg ‹_›, ih h]

theorem fillVacant_of_none {m : NodeMap} {key : String} (node : Node) (h : m.get? key = none) :
    m.fillVacant key node = m.insert key node := by
  simp [fillVacant, h]

theorem fillVacant_of_null {m : NodeMap} {key : String} (node : Node)
    (h : m.get? key = some .null) : m.fillVacant key node = m.insert key node := by
  simp [fillVacant, h]

theorem fillVacant_of_some {m : NodeMap} {key : String} {n : Node} (node : Node)
    (h : m.get? key = some n) (hn : n ≠ .null) : m.fillVacant key node = m := by
  simp only [fillVacant, h]

/-- A place that has been filled holds something. -/
theorem exists_get?_fillVacant (m : NodeMap) (key : String) (node : Node) :
    ∃ n, (m.fillVacant key node).get? key = some n := by
  cases h : m.get? key with
  | none => exact ⟨node, by rw [fillVacant_of_none node h, get?_insert_self]⟩
  | some n =>
      by_cases hn : n = .null
      · subst hn
        exact ⟨node, by rw [fillVacant_of_null node h, get?_insert_self]⟩
      · exact ⟨n, by rw [fillVacant_of_some node h hn, h]⟩

end LayeredConfig.NodeMap
