import Mathlib.Data.List.TakeWhile

/-!
# Runs at the start of a text

`takeWhile` and `dropWhile` divide a text where the first character without a property stands.

* `takeWhile_append_of_head`, `dropWhile_append_of_head` — behind the run more text may follow.
* `takeWhile_flatMap`, `dropWhile_flatMap` — every character may be written in another way.
-/

namespace LayeredConfig.Text

variable {p : Char → Bool} {c : Char} {s t : List Char}

theorem takeWhile_append_of_head (ht : ∀ c ∈ t.head?, p c = false) :
    (s ++ t).takeWhile p = s.takeWhile p := by
  induction s with
  | nil =>
      cases t with
      | nil => rfl
      | cons c t => simp [ht c rfl]
  | cons c s ih => cases hc : p c <;> simp [hc, ih]

theorem dropWhile_append_of_head (ht : ∀ c ∈ t.head?, p c = false) :
    (s ++ t).dropWhile p = s.dropWhile p ++ t := by
  induction s with
  | nil =>
      cases t with
      | nil => rfl
      | cons c t => simp [ht c rfl]
  | cons c s ih => cases hc : p c <;> simp [hc, ih]

theorem takeWhile_append_cons (hs : ∀ c ∈ s, p c = true) (hc : p c = false) (t : List Char) :
    (s ++ c :: t).takeWhile p = s := by
  rw [takeWhile_append_of_head (by simpa using hc), List.takeWhile_eq_self_iff.2 hs]

theorem dropWhile_append_cons (hs : ∀ c ∈ s, p c = true) (hc : p c = false) (t : List Char) :
    (s ++ c :: t).dropWhile p = c :: t := by
  rw [dropWhile_append_of_head (by simpa using hc), List.dropWhile_eq_nil_iff.2 hs, List.nil_append]

theorem head_of_dropWhile (h : s.dropWhile p = c :: t) : p c = false := by
  have := List.head?_dropWhile_not p s
  rwa [h] at this

variable {f : Char → List Char}

theorem takeWhile_flatMap (hin : ∀ c, p c = true → ∀ d ∈ f c, p d = true)
    (hout : ∀ c, p c = false → f c = [c]) (s : List Char) :
    (s.flatMap f).takeWhile p = (s.takeWhile p).flatMap f := by
  induction s with
  | nil => rfl
  | cons c s ih =>
      cases hc : p c with
      | true => simp [List.takeWhile_append_of_pos (hin c hc), hc, ih]
      | false => simp [hout c hc, hc]

theorem dropWhile_flatMap (hin : ∀ c, p c = true → ∀ d ∈ f c, p d = true)
    (hout : ∀ c, p c = false → f c = [c]) (s : List Char) :
    (s.flatMap f).dropWhile p = (s.dropWhile p).flatMap f := by
  induction s with
  | nil => rfl
  | cons c s ih =>
      cases hc : p c with
      | true => simp [List.dropWhile_append_of_pos (hin c hc), hc, ih]
      | false => simp [hout c hc, hc]

end LayeredConfig.Text
