import LayeredConfig.OrderedMap
import LayeredConfig.Proofs.Words

/-!
# Writing entries

What is found under a name after entries have been written, and the order of the names.

* `get?_putAll`, `keys_putAll` — the value written last is found, at the place of the name that came
  first.
* `putAll_putAll` — writing is associative: entries may be gathered before they are written.
* `putAll_of_nodup` — new entries go behind the others as they are.
* `OrderedMap.perm_of_get?` — maps in which the same is found differ in their order only.
-/

namespace LayeredConfig

variable {α : Type}

namespace Entries

variable {entries written more : List (String × α)} {key k : String} {value a : α}

@[simp] theorem keys_nil : keys ([] : List (String × α)) = [] := rfl

@[simp] theorem keys_cons (e : String × α) (entries : List (String × α)) :
    keys (e :: entries) = e.1 :: keys entries := rfl

@[simp] theorem keys_append (a b : List (String × α)) : keys (a ++ b) = keys a ++ keys b :=
  List.map_append

theorem keys_filter (p : String → Bool) (entries : List (String × α)) :
    keys (entries.filter fun e => p e.1) = (keys entries).filter p := by
  rw [keys, keys, List.filter_map]
  rfl

/-! ## Finding -/

theorem isSome_get?_iff : (get? k entries).isSome ↔ k ∈ keys entries := by
  induction entries with
  | nil => simp [get?]
  | cons e rest ih =>
      obtain ⟨k', v⟩ := e
      rw [get?]
      by_cases h : k' = k
      · simp [h]
      · simpa [h, Ne.symm h] using ih

theorem get?_eq_none_iff : get? k entries = none ↔ k ∉ keys entries := by
  rw [← isSome_get?_iff, Option.not_isSome_iff_eq_none]

/-- With distinct names, the entries are what is found under the names. -/
theorem mem_iff_get? (h : (keys entries).Nodup) : (k, a) ∈ entries ↔ get? k entries = some a := by
  induction entries with
  | nil => simp [get?]
  | cons e rest ih =>
      obtain ⟨k', v⟩ := e
      obtain ⟨hnew, hrest⟩ := List.nodup_cons.1 h
      rw [get?, List.mem_cons, ih hrest]
      by_cases hk : k' = k
      · subst hk
        have hnone : get? k' rest = none := get?_eq_none_iff.2 hnew
        simp [hnone, eq_comm]
      · simp [hk, Ne.symm hk]

theorem get?_append (a b : List (String × α)) (k : String) :
    get? k (a ++ b) = (get? k a).or (get? k b) := by
  induction a with
  | nil => rfl
  | cons e a ih =>
      obtain ⟨k', v⟩ := e
      rw [List.cons_append, get?, get?, ih]
      split <;> simp

theorem get?_map_values {β : Type} (f : String → α → β) (entries : List (String × α)) (k : String) :
    get? k (entries.map fun e => (e.1, f e.1 e.2)) = (get? k entries).map (f k) := by
  induction entries with
  | nil => rfl
  | cons e entries ih =>
      rw [List.map_cons, get?, get?]
      split
      · next h =>
          subst h
          rfl
      · exact ih

theorem get?_filter (p : String → Bool) (entries : List (String × α)) (k : String) :
    get? k (entries.filter fun e => p e.1) = if p k then get? k entries else none := by
  induction entries with
  | nil => simp [get?]
  | cons e rest ih =>
      obtain ⟨k', v⟩ := e
      by_cases hk : k' = k
      · subst hk
        by_cases hp : p k' = true
        · simp [hp, get?]
        · simp [hp, ih]
      · by_cases hp : p k' = true
        · simp [hp, get?, hk, ih]
        · simp [hp, get?, hk, ih]

/-! ## Writing -/

theorem get?_put (key : String) (value : α) (entries : List (String × α)) (k : String) :
    get? k (put key value entries) = if k = key then some value else get? k entries := by
  induction entries with
  | nil => simp [put, get?, eq_comm]
  | cons e rest ih =>
      obtain ⟨k', v⟩ := e
      rw [put]
      by_cases hk : k' = key
      · subst hk
        by_cases h : k = k'
        · simp [get?, h]
        · simp [get?, h, Ne.symm h]
      · rw [if_neg hk, get?, get?, ih]
        by_cases h : k' = k
        · subst h
          simp [hk]
        · simp [h]

/-- A new name goes behind all others. -/
theorem put_of_not_mem (value : α) (h : key ∉ keys entries) :
    put key value entries = entries ++ [(key, value)] := by
  induction entries with
  | nil => rfl
  | cons e rest ih =>
      obtain ⟨k', v⟩ := e
      simp only [keys_cons, List.mem_cons, not_or] at h
      rw [put, if_neg (Ne.symm h.1), ih h.2, List.cons_append]

theorem keys_put_of_mem (value : α) (h : key ∈ keys entries) :
    keys (put key value entries) = keys entries := by
  induction entries with
  | nil => simp at h
  | cons e rest ih =>
      obtain ⟨k', v⟩ := e
      rw [put]
      by_cases hk : k' = key
      · simp [hk]
      · have hrest : key ∈ keys rest := by simpa [Ne.symm hk] using h
        simp [hk, ih hrest]

theorem put_put (key : String) (a b : α) (entries : List (String × α)) :
    put key b (put key a entries) = put key b entries := by
  induction entries with
  | nil => simp [put]
  | cons e rest ih =>
      obtain ⟨k', v⟩ := e
      by_cases hk : k' = key
      · simp [put, hk]
      · simp [put, hk, ih]

/-- Where a name is there already, it does not matter whether it is written before another one. -/
theorem put_comm (hne : key ≠ k) (h : key ∈ keys entries) (value a : α) :
    put key value (put k a entries) = put k a (put key value entries) := by
  induction entries with
  | nil => simp at h
  | cons e rest ih =>
      obtain ⟨k', v⟩ := e
      by_cases hk : k' = key
      · subst hk
        simp [put, hne]
      · have hrest : key ∈ keys rest := by simpa [Ne.symm hk] using h
        by_cases hk' : k' = k
        · simp [put, hk', Ne.symm hne]
        · simp [put, hk, hk', ih hrest]

theorem filter_put (p : String → Bool) (key : String) (value : α) (entries : List (String × α)) :
    (put key value entries).filter (fun e => p e.1) =
      if p key then put key value (entries.filter fun e => p e.1)
      else entries.filter fun e => p e.1 := by
  induction entries with
  | nil => by_cases hp : p key = true <;> simp [put, hp]
  | cons e rest ih =>
      obtain ⟨k', v⟩ := e
      by_cases hk : k' = key
      · subst hk
        by_cases hp : p k' = true <;> simp [put, hp]
      · by_cases hp' : p k' = true
        · by_cases hp : p key = true <;> simp [put, hk, hp, hp', ih]
        · by_cases hp : p key = true <;> simp [put, hk, hp, hp', ih]

/-! ## Writing one after another -/

@[simp] theorem putAll_nil (entries : List (String × α)) : putAll entries [] = entries := rfl

theorem putAll_cons (entries : List (String × α)) (e : String × α) (written : List (String × α)) :
    putAll entries (e :: written) = putAll (put e.1 e.2 entries) written := rfl

/-- The value that is written last is found. -/
theorem get?_putAll (entries written : List (String × α)) (k : String) :
    get? k (putAll entries written) = (get? k written.reverse).or (get? k entries) := by
  induction written generalizing entries with
  | nil => rfl
  | cons e written ih =>
      obtain ⟨k', v⟩ := e
      rw [putAll_cons, ih, get?_put, List.reverse_cons, get?_append, get?, get?]
      by_cases h : k' = k
      · simp [h]
      · simp [h, Ne.symm h]

theorem get?_reverse (h : (keys entries).Nodup) (k : String) :
    get? k entries.reverse = get? k entries := by
  have hreverse : (keys entries.reverse).Nodup := by
    rw [keys, List.map_reverse]
    exact List.nodup_reverse.2 h
  ext a
  rw [← mem_iff_get? h, ← mem_iff_get? hreverse, List.mem_reverse]

theorem get?_putAll_of_nodup (h : (keys written).Nodup) (k : String) :
    get? k (putAll entries written) = (get? k written).or (get? k entries) := by
  rw [get?_putAll, get?_reverse h]

/-- Names stand where they were written first. -/
theorem keys_putAll (h : (keys entries).Nodup) :
    keys (putAll entries written) = firstOccurrences (keys entries ++ keys written) := by
  induction written generalizing entries with
  | nil => rw [putAll_nil, keys_nil, List.append_nil, firstOccurrences_of_nodup h]
  | cons e written ih =>
      obtain ⟨k', v⟩ := e
      rw [putAll_cons, ih (nodup_keys_put h), keys_cons]
      by_cases hk : k' ∈ keys entries
      · rw [keys_put_of_mem v hk, firstOccurrences_append, firstOccurrences_append,
          firstOccurrences, List.filter_cons_of_neg (by simpa using hk), List.filter_filter]
        congr 1
        refine List.filter_congr fun s _ => ?_
        by_cases hs : s = k'
        · simp [hs, hk]
        · simp [hs]
      · rw [put_of_not_mem v hk, keys_append, List.append_assoc]
        rfl

theorem putAll_of_nodup (h : (keys (entries ++ written)).Nodup) :
    putAll entries written = entries ++ written := by
  induction written generalizing entries with
  | nil => rw [putAll_nil, List.append_nil]
  | cons e rest ih =>
      have hnew : e.1 ∉ keys entries := by
        rw [keys_append, List.nodup_append] at h
        exact fun hmem => h.2.2 e.1 hmem e.1 (by simp) rfl
      rw [putAll_cons, put_of_not_mem e.2 hnew, ih (by simpa using h), List.append_assoc]
      rfl

theorem put_putAll (h : key ∈ keys entries) (hnew : key ∉ keys written) (value : α) :
    put key value (putAll entries written) = putAll (put key value entries) written := by
  induction written generalizing entries with
  | nil => rfl
  | cons e written ih =>
      simp only [keys_cons, List.mem_cons, not_or] at hnew
      rw [putAll_cons, putAll_cons, ih (mem_keys_put.2 (.inr h)) hnew.2, put_comm hnew.1 h]

theorem putAll_put (h : (keys written).Nodup) (key : String) (value : α) :
    putAll entries (put key value written) = put key value (putAll entries written) := by
  induction written generalizing entries with
  | nil => rfl
  | cons e written ih =>
      obtain ⟨k', v⟩ := e
      obtain ⟨hnew, hrest⟩ := List.nodup_cons.1 h
      by_cases hk : k' = key
      · -- the value is replaced before or after the rest is written
        subst hk
        rw [put, if_pos rfl, putAll_cons, putAll_cons, put_putAll (mem_keys_put.2 (.inl rfl)) hnew,
          put_put]
      · rw [put, if_neg hk, putAll_cons, putAll_cons, ih hrest]

/-- Entries may be gathered before they are written. -/
theorem putAll_putAll (h : (keys written).Nodup) :
    putAll entries (putAll written more) = putAll (putAll entries written) more := by
  induction more generalizing written with
  | nil => rfl
  | cons e more ih => rw [putAll_cons, ih (nodup_keys_put h), putAll_put h, putAll_cons]

theorem filter_putAll (p : String → Bool) (entries written : List (String × α)) :
    (putAll entries written).filter (fun e => p e.1) =
      putAll (entries.filter fun e => p e.1) (written.filter fun e => p e.1) := by
  induction written generalizing entries with
  | nil => rfl
  | cons e written ih =>
      rw [putAll_cons, ih, filter_put]
      by_cases hp : p e.1 = true
      · simp [hp, putAll_cons]
      · simp [hp]

end Entries

namespace OrderedMap

variable {m m' : OrderedMap α} {k : String} {v : α}

theorem ext_entries (h : m.entries = m'.entries) : m = m' := by
  cases m
  cases m'
  simpa using h

theorem mem_entries_iff : (k, v) ∈ m.entries ↔ m.get? k = some v := Entries.mem_iff_get? m.nodup

theorem mem_keys_iff : k ∈ m.keys ↔ ∃ v, m.get? k = some v := by
  rw [← Option.isSome_iff_exists, OrderedMap.get?, Entries.isSome_get?_iff, OrderedMap.keys]

theorem get?_ofList (entries : List (String × α)) (k : String) :
    (ofList entries).get? k = Entries.get? k entries.reverse := by
  rw [OrderedMap.get?, ofList, insertAll, empty, Entries.get?_putAll]
  exact Option.or_none

theorem mem_keys_ofList {entries : List (String × α)} :
    k ∈ (ofList entries).keys ↔ k ∈ Entries.keys entries := by
  rw [OrderedMap.keys, ofList, insertAll, Entries.keys_putAll empty.nodup, mem_firstOccurrences]
  rfl

/-- Entries under distinct names make up a map as they are. -/
theorem entries_ofList {entries : List (String × α)} (h : (Entries.keys entries).Nodup) :
    (ofList entries).entries = entries :=
  @Entries.putAll_of_nodup α [] entries h

theorem entries_erase (m : OrderedMap α) (key : String) :
    (m.erase key).entries = m.entries.filter fun e => e.1 ≠ key := rfl

theorem get?_mapValues {β : Type} (f : String → α → β) (m : OrderedMap α) (k : String) :
    (m.mapValues f).get? k = (m.get? k).map (f k) :=
  Entries.get?_map_values f m.entries k

/-- Maps in which the same is found under every name are reorderings of each other. -/
theorem perm_of_get? (h : ∀ k, m.get? k = m'.get? k) : m.entries.Perm m'.entries := by
  rw [List.perm_ext_iff_of_nodup m.nodup.of_map m'.nodup.of_map]
  rintro ⟨k, v⟩
  rw [mem_entries_iff, mem_entries_iff, h]

end OrderedMap

end LayeredConfig
