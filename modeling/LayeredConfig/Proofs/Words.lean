import LayeredConfig.Words
import Mathlib.Data.List.Nodup

/-!
# First occurrences

`firstOccurrences` keeps the first of several equal words: no word is lost, none is left twice, and the
words stay in the order in which they appear first.

* `inOrderOf_firstOccurrences` — the order, by positions in the list that is read.
* `firstOccurrences_append` — a list that is read behind another one adds its new words.
* `Precedes.reverse_firstOccurrences` — read backwards, the words change places.
-/

namespace LayeredConfig

/-- Words in the order in which they appear first in a list that is read. -/
def InOrderOf (words read : List String) : Prop :=
  words.Pairwise fun a b => read.idxOf a < read.idxOf b

instance (words read : List String) : Decidable (InOrderOf words read) :=
  inferInstanceAs (Decidable (words.Pairwise fun a b => read.idxOf a < read.idxOf b))

variable {s : String} {words : List String}

@[simp] theorem mem_firstOccurrences : s ∈ firstOccurrences words ↔ s ∈ words := by
  induction words with
  | nil => simp [firstOccurrences]
  | cons w words ih =>
      by_cases h : s = w
      · simp [firstOccurrences, h]
      · simp [firstOccurrences, h, ih]

theorem nodup_firstOccurrences (words : List String) : (firstOccurrences words).Nodup := by
  induction words with
  | nil => simp [firstOccurrences]
  | cons w words ih =>
      rw [firstOccurrences, List.nodup_cons]
      exact ⟨by simp, ih.filter _⟩

theorem firstOccurrences_of_nodup (h : words.Nodup) : firstOccurrences words = words := by
  induction words with
  | nil => rfl
  | cons w words ih =>
      obtain ⟨hw, hwords⟩ := List.nodup_cons.1 h
      rw [firstOccurrences, ih hwords, List.filter_eq_self.2]
      intro s hs
      have hne : s ≠ w := fun h => hw (h ▸ hs)
      simpa using hne

theorem firstOccurrences_filter (p : String → Bool) (words : List String) :
    firstOccurrences (words.filter p) = (firstOccurrences words).filter p := by
  induction words with
  | nil => rfl
  | cons w words ih =>
      by_cases hw : p w = true
      · rw [List.filter_cons_of_pos hw, firstOccurrences, ih, firstOccurrences,
          List.filter_cons_of_pos hw, List.filter_filter, List.filter_filter]
        simp only [Bool.and_comm]
      · -- the word that is left out cannot be met again
        rw [List.filter_cons_of_neg hw, ih, firstOccurrences, List.filter_cons_of_neg hw,
          List.filter_filter]
        refine List.filter_congr fun s _ => ?_
        by_cases hs : s = w
        · simp [hs, hw]
        · simp [hs]

/-- Behind other words only the new ones are kept. -/
theorem firstOccurrences_append (a b : List String) :
    firstOccurrences (a ++ b) =
      firstOccurrences a ++ (firstOccurrences b).filter fun s => s ∉ a := by
  induction a with
  | nil => simp [firstOccurrences]
  | cons w a ih =>
      rw [List.cons_append, firstOccurrences, firstOccurrences, ih, List.filter_append,
        List.filter_filter, List.cons_append]
      congr 2
      refine List.filter_congr fun s _ => ?_
      simp [not_or]

theorem firstOccurrences_append_left (a b : List String) :
    firstOccurrences (firstOccurrences a ++ b) = firstOccurrences (a ++ b) := by
  rw [firstOccurrences_append, firstOccurrences_append,
    firstOccurrences_of_nodup (nodup_firstOccurrences a)]
  simp only [mem_firstOccurrences]

theorem head?_firstOccurrences (words : List String) : (firstOccurrences words).head? = words.head? := by
  cases words with
  | nil => rfl
  | cons name rest => rfl

/-- Words of a list that is behind another word count once, before or after they are put there. -/
theorem firstOccurrences_cons_firstOccurrences (name : String) (words : List String) :
    firstOccurrences (name :: firstOccurrences words) = firstOccurrences (name :: words) := by
  rw [firstOccurrences, firstOccurrences, firstOccurrences_of_nodup (nodup_firstOccurrences words)]

/-- A word that comes first already is not put in front again. -/
theorem firstOccurrences_cons_of_head? {name : String} (h : words.head? = some name) :
    firstOccurrences (name :: words) = firstOccurrences words := by
  obtain ⟨rest, rfl⟩ := List.head?_eq_some_iff.1 h
  rw [firstOccurrences, firstOccurrences, List.filter_cons_of_neg (by simp), List.filter_filter]
  simp

theorem inOrderOf_firstOccurrences (words : List String) :
    InOrderOf (firstOccurrences words) words := by
  induction words with
  | nil => simp [firstOccurrences, InOrderOf]
  | cons w words ih =>
      rw [firstOccurrences, InOrderOf, List.pairwise_cons]
      constructor
      · intro s hs
        have hne : w ≠ s := by
          rintro rfl
          simp at hs
        simp [List.idxOf_cons_ne words hne]
      · -- positions behind the first word are those in the rest, one further on
        refine (ih.filter _).imp_of_mem fun {a b} ha hb hab => ?_
        have hane : w ≠ a := by
          rintro rfl
          simp at ha
        have hbne : w ≠ b := by
          rintro rfl
          simp at hb
        simpa [List.idxOf_cons_ne words hane, List.idxOf_cons_ne words hbne] using hab

/-- Two words of a list, of which one appears before the other. -/
def Precedes (words : List String) (a b : String) : Prop :=
  a ∈ words ∧ b ∈ words ∧ words.idxOf a < words.idxOf b

instance (words : List String) (a b : String) : Decidable (Precedes words a b) :=
  inferInstanceAs (Decidable (a ∈ words ∧ b ∈ words ∧ words.idxOf a < words.idxOf b))

section Precedes

variable {a b w : String}

theorem Precedes.ne (h : Precedes words a b) : a ≠ b := by
  rintro rfl
  exact absurd h.2.2 (Nat.lt_irrefl _)

theorem Precedes.cons (h : Precedes words a b) (ha : a ≠ w) (hb : b ≠ w) :
    Precedes (w :: words) a b := by
  obtain ⟨hmema, hmemb, hlt⟩ := h
  refine ⟨List.mem_cons_of_mem w hmema, List.mem_cons_of_mem w hmemb, ?_⟩
  rw [List.idxOf_cons_ne words (Ne.symm ha), List.idxOf_cons_ne words (Ne.symm hb)]
  exact Nat.succ_lt_succ hlt

/-- What holds of every two words in order holds of one that precedes another. -/
theorem Precedes.of_pairwise {R : String → String → Prop} (h : Precedes words a b)
    (hwords : words.Pairwise R) : R a b := by
  obtain ⟨ha, hb, hlt⟩ := h
  have := List.pairwise_iff_getElem.1 hwords _ _ (List.idxOf_lt_length_of_mem ha)
    (List.idxOf_lt_length_of_mem hb) hlt
  rwa [List.getElem_idxOf, List.getElem_idxOf] at this

theorem inOrderOf_self (h : words.Nodup) : InOrderOf words words := by
  have := inOrderOf_firstOccurrences words
  rwa [firstOccurrences_of_nodup h] at this

theorem Precedes.firstOccurrences (h : Precedes words a b) :
    Precedes (firstOccurrences words) a b := by
  refine ⟨mem_firstOccurrences.2 h.1, mem_firstOccurrences.2 h.2.1, ?_⟩
  rcases Nat.lt_trichotomy ((LayeredConfig.firstOccurrences words).idxOf a)
    ((LayeredConfig.firstOccurrences words).idxOf b) with hlt | heq | hgt
  · exact hlt
  · exact absurd ((List.idxOf_inj (mem_firstOccurrences.2 h.1)).1 heq) h.ne
  · have hback : Precedes (LayeredConfig.firstOccurrences words) b a :=
      ⟨mem_firstOccurrences.2 h.2.1, mem_firstOccurrences.2 h.1, hgt⟩
    have := hback.of_pairwise (inOrderOf_firstOccurrences words)
    exact absurd h.2.2 (Nat.lt_asymm this)

theorem Precedes.reverse (h : Precedes words a b) (hwords : words.Nodup) :
    Precedes words.reverse b a := by
  have hpairwise : words.Pairwise fun a b => words.reverse.idxOf b < words.reverse.idxOf a :=
    List.pairwise_reverse.1 (inOrderOf_self (List.nodup_reverse.2 hwords))
  exact ⟨List.mem_reverse.2 h.2.1, List.mem_reverse.2 h.1, h.of_pairwise hpairwise⟩

/-- Read backwards and without repetitions, the words change places. -/
theorem Precedes.reverse_firstOccurrences (h : Precedes words a b) :
    Precedes (LayeredConfig.firstOccurrences words).reverse b a :=
  h.firstOccurrences.reverse (nodup_firstOccurrences words)

end Precedes

end LayeredConfig
