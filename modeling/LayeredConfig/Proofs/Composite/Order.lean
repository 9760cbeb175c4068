import LayeredConfig.Composite
import Mathlib.Data.List.TakeWhile
import Mathlib.Tactic.Common

/-!
# The order of members

However members are added to a composite, they stand by ascending order, and members of one order as they
were added.

* `ordered_add`, `filter_add` — what one more member does.
* `partsAt_iff`, `members_add` — the one place where it goes.
* `eq_of_ordered` — there is only one such list.
* `members_foldl_add` — so adding members sorts them stably.
* `members_foldl_add_append` — members of the least order stay in front.
-/

namespace LayeredConfig.Composite

/-- Members by ascending order. -/
def Ordered (members : List Member) : Prop := members.Pairwise fun a b => a.order ≤ b.order

variable {members members' : List Member} {composite : Composite} {b : Member} {o : Int}

theorem lt_of_mem_dropWhile (h : Ordered members) (hb : b ∈ members.dropWhile (·.order ≤ o)) :
    o < b.order := by
  induction members with
  | nil => simp at hb
  | cons a members ih =>
      obtain ⟨hfirst, hrest⟩ := List.pairwise_cons.1 h
      by_cases ha : a.order ≤ o
      · rw [List.dropWhile_cons_of_pos (by simpa using ha)] at hb
        exact ih hrest hb
      · rw [List.dropWhile_cons_of_neg (by simpa using ha), List.mem_cons] at hb
        rcases hb with rfl | hb
        · omega
        · have := hfirst b hb
          omega

theorem le_of_mem_takeWhile (hb : b ∈ members.takeWhile (·.order ≤ o)) : b.order ≤ o := by
  simpa using List.mem_takeWhile_imp hb

/-- A member is added at a place where the order stays ascending. -/
theorem ordered_add (h : Ordered composite.members) (member : Member) :
    Ordered (composite.add member).members := by
  have hsplit := List.takeWhile_append_dropWhile (p := fun m : Member => m.order ≤ member.order)
    (l := composite.members)
  rw [Ordered, ← hsplit] at h
  obtain ⟨hbefore, hbehind, -⟩ := List.pairwise_append.1 h
  rw [hsplit] at h
  have hlater : ∀ b ∈ composite.members.dropWhile (·.order ≤ member.order),
      member.order < b.order := fun b => lt_of_mem_dropWhile h
  refine List.pairwise_append.2 ⟨hbefore, List.pairwise_cons.2 ⟨fun b hb => ?_, hbehind⟩, ?_⟩
  · exact Int.le_of_lt (hlater b hb)
  · intro a ha b hb
    have hle := le_of_mem_takeWhile ha
    rcases List.mem_cons.1 hb with rfl | hb
    · exact hle
    · exact Int.le_trans hle (Int.le_of_lt (hlater b hb))

/-- A member is added behind the others of its order. -/
theorem filter_add (h : Ordered composite.members) (member : Member) (o : Int) :
    (composite.add member).members.filter (·.order = o) =
      (composite.members ++ [member]).filter (·.order = o) := by
  have hsplit := List.takeWhile_append_dropWhile (p := fun m : Member => m.order ≤ member.order)
    (l := composite.members)
  conv_rhs => rw [← hsplit]
  simp only [add, List.filter_append, List.append_assoc]
  congr 1
  by_cases ho : member.order = o
  · -- what stands behind the member has a higher order
    have hnone : (composite.members.dropWhile (·.order ≤ member.order)).filter (·.order = o) = [] := by
      rw [List.filter_eq_nil_iff]
      intro b hb
      have := lt_of_mem_dropWhile h hb
      simp only [decide_eq_true_eq]
      omega
    subst ho
    simp [hnone]
  · simp [ho]

/-- A place that parts a list: every item before it passes a test, and none from it on does. -/
def PartsAt {α : Type} (test : α → Bool) (items : List α) (n : Nat) : Prop :=
  n ≤ items.length ∧ (∀ a ∈ items.take n, test a = true) ∧ ∀ a ∈ items.drop n, test a = false

/-- Members by ascending order are parted in one place only, whatever way it is looked for. -/
theorem partsAt_iff (h : Ordered members) (o : Int) {n : Nat} :
    PartsAt (·.order ≤ o) members n ↔ n = (members.takeWhile (·.order ≤ o)).length := by
  constructor
  · rintro ⟨hn, hbefore, hbehind⟩
    have htake : members.takeWhile (·.order ≤ o) = members.take n := by
      -- nothing that stands behind the place is taken
      have hnone : (members.drop n).takeWhile (·.order ≤ o) = [] := by
        cases hdrop : members.drop n with
        | nil => rfl
        | cons b rest =>
            rw [hdrop] at hbehind
            rw [List.takeWhile_cons_of_neg]
            simpa using hbehind b List.mem_cons_self
      have hsplit : (members.take n ++ members.drop n).takeWhile (·.order ≤ o) =
          members.take n ++ (members.drop n).takeWhile (·.order ≤ o) :=
        List.takeWhile_append_of_pos hbefore
      rwa [List.take_append_drop, hnone, List.append_nil] at hsplit
    rw [htake, List.length_take_of_le hn]
  · rintro rfl
    have hsplit := List.takeWhile_append_dropWhile (p := fun m : Member => m.order ≤ o) (l := members)
    have htake := congrArg (List.take (members.takeWhile (·.order ≤ o)).length) hsplit
    have hdrop := congrArg (List.drop (members.takeWhile (·.order ≤ o)).length) hsplit
    rw [List.take_left] at htake
    rw [List.drop_left] at hdrop
    refine ⟨(List.takeWhile_sublist _).length_le, ?_, ?_⟩
    · intro a ha
      rw [← htake] at ha
      simpa using le_of_mem_takeWhile ha
    · intro b hb
      rw [← hdrop] at hb
      have := lt_of_mem_dropWhile h hb
      simp only [decide_eq_false_iff_not]
      omega

/-- A member is put where the members are parted by its order. -/
theorem members_add (composite : Composite) (member : Member) :
    (composite.add member).members =
      composite.members.insertIdx (composite.members.takeWhile (·.order ≤ member.order)).length
        member := by
  unfold add
  induction composite.members with
  | nil => rfl
  | cons a members ih =>
      by_cases ha : a.order ≤ member.order
      · simpa [ha] using ih
      · simp [ha]

/-- Members by ascending order are determined by those of each order. -/
theorem eq_of_ordered (h : Ordered members) (h' : Ordered members')
    (hsame : ∀ o, members.filter (·.order = o) = members'.filter (·.order = o)) :
    members = members' := by
  induction members generalizing members' with
  | nil =>
      refine (List.eq_nil_iff_forall_not_mem.2 fun b hb => ?_).symm
      have hmem : b ∈ members'.filter (·.order = b.order) := List.mem_filter.2 ⟨hb, by simp⟩
      rw [← hsame] at hmem
      simp at hmem
  | cons a members ih =>
      obtain ⟨hfirst, hrest⟩ := List.pairwise_cons.1 h
      have hmem : a ∈ members'.filter (·.order = a.order) := by
        rw [← hsame]
        simp
      cases members' with
      | nil => simp at hmem
      | cons b members' =>
          obtain ⟨hfirst', hrest'⟩ := List.pairwise_cons.1 h'
          have hmem' : b ∈ (a :: members).filter (·.order = b.order) := by
            rw [hsame]
            simp
          -- each of the two heads is among the other members, so they have one order
          have hle : a.order ≤ b.order := by
            rcases List.mem_cons.1 (List.mem_filter.1 hmem').1 with rfl | hb
            · exact Int.le_refl _
            · exact hfirst b hb
          have hle' : b.order ≤ a.order := by
            rcases List.mem_cons.1 (List.mem_filter.1 hmem).1 with rfl | ha
            · exact Int.le_refl _
            · exact hfirst' a ha
          have horder : b.order = a.order := by omega
          have hheads := hsame a.order
          rw [List.filter_cons_of_pos (by simp), List.filter_cons_of_pos (by simp [horder])] at hheads
          obtain ⟨rfl, -⟩ := List.cons.inj hheads
          rw [ih hrest hrest' fun o => ?_]
          have htails := hsame o
          by_cases ho : a.order = o
          · simpa [ho] using htails
          · simpa [ho] using htails

theorem ordered_foldl_add (h : Ordered composite.members) (added : List Member) :
    Ordered (added.foldl add composite).members := by
  induction added generalizing composite with
  | nil => exact h
  | cons member added ih => exact ih (ordered_add h member)

theorem acceptEmpty_foldl_add (added : List Member) (composite : Composite) :
    (added.foldl add composite).acceptEmpty = composite.acceptEmpty := by
  induction added generalizing composite with
  | nil => rfl
  | cons member added ih => exact ih (composite.add member)

theorem filter_foldl_add (h : Ordered composite.members) (added : List Member) (o : Int) :
    (added.foldl add composite).members.filter (·.order = o) =
      (composite.members ++ added).filter (·.order = o) := by
  induction added generalizing composite with
  | nil => rw [List.append_nil, List.foldl_nil]
  | cons member added ih =>
      rw [List.foldl_cons, ih (ordered_add h member), List.filter_append, filter_add h,
        ← List.filter_append, List.append_assoc, List.singleton_append]

/-- Adding members sorts them stably by their order. -/
theorem members_foldl_add (added : List Member) (acceptEmpty : Bool) :
    (added.foldl add { acceptEmpty }).members = added.mergeSort fun a b => a.order ≤ b.order := by
  have htrans : ∀ a b c : Member, decide (a.order ≤ b.order) = true →
      decide (b.order ≤ c.order) = true → decide (a.order ≤ c.order) = true := by
    intro a b c hab hbc
    simp only [decide_eq_true_eq] at hab hbc ⊢
    omega
  have htotal : ∀ a b : Member, (decide (a.order ≤ b.order) || decide (b.order ≤ a.order)) = true := by
    intro a b
    simp only [Bool.or_eq_true, decide_eq_true_eq]
    omega
  have hempty : Ordered ({ acceptEmpty } : Composite).members := List.Pairwise.nil
  have hsorted := List.pairwise_mergeSort htrans htotal added
  refine eq_of_ordered (ordered_foldl_add hempty added) (by simpa [Ordered] using hsorted) fun o => ?_
  rw [filter_foldl_add hempty, List.nil_append]
  -- members of one order are a sublist that sorting keeps as it is
  have hone : (added.filter (·.order = o)).Pairwise
      fun a b => decide (a.order ≤ b.order) = true := by
    refine List.pairwise_of_forall_mem_list fun a ha b hb => ?_
    have ha := (List.mem_filter.1 ha).2
    have hb := (List.mem_filter.1 hb).2
    simp only [decide_eq_true_eq] at ha hb ⊢
    omega
  have hsublist := (List.sublist_mergeSort htrans htotal hone List.filter_sublist).filter
    fun m => decide (m.order = o)
  rw [List.filter_filter] at hsublist
  simp only [Bool.and_self] at hsublist
  exact hsublist.eq_of_length ((List.mergeSort_perm added _).filter _).length_eq.symm

/-- Members of the least order that are added first stay in front, and the others are sorted stably
behind them. -/
theorem members_foldl_add_append {first added : List Member} (hfirst : ∀ m ∈ first, m.order = o)
    (hadded : ∀ m ∈ added, o ≤ m.order) (acceptEmpty : Bool) :
    ((first ++ added).foldl add { acceptEmpty }).members =
      first ++ added.mergeSort fun a b => a.order ≤ b.order := by
  have hempty : Ordered ({ acceptEmpty } : Composite).members := List.Pairwise.nil
  rw [← members_foldl_add added acceptEmpty]
  refine eq_of_ordered (ordered_foldl_add hempty _) ?_ fun o' => ?_
  · refine List.pairwise_append.2 ⟨?_, ordered_foldl_add hempty added, ?_⟩
    · refine List.pairwise_of_forall_mem_list fun a ha b hb => ?_
      exact Int.le_of_eq ((hfirst a ha).trans (hfirst b hb).symm)
    · intro a ha b hb
      rw [members_foldl_add, List.mem_mergeSort] at hb
      rw [hfirst a ha]
      exact hadded b hb
  · -- each order sees the same members in the same sequence, one by one or all at once
    rw [filter_foldl_add hempty, List.filter_append first,
      filter_foldl_add hempty]
    simp

end LayeredConfig.Composite
