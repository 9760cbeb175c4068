import LayeredConfig.Config.Composite
import LayeredConfig.Proofs.Composite.Order
import LayeredConfig.Proofs.Key.Spelling
import Mathlib.Data.List.Perm.Basic

/-!
# The order in which tables are consulted

Tables are added to a composite in the sequence in which they are named, and it sorts them.  What comes
out is told without adding anything: data files as they are given, then the repositories of the
configuration sorted stably by their order.

* `mapM_eq_ok_iff` — a list of which every item can be read.
* `dataFileMember_eq_ok_iff`, `repositoryMember_eq_ok_iff` — the tables that are loaded.
* `forall₂_mergeSort` — related lists stay related when both are sorted.
* `exists_sorted_members` — repositories load in any sequence or in none.
* `foldl_add_loaded` — the composite of tables that have been loaded.
* `consultation_order` — the members of any composite, and of that of a configuration.
-/

namespace LayeredConfig.Config

variable {α β ε : Type}

theorem mapM_eq_ok_iff {f : α → Except ε β} {items : List α} {results : List β} :
    items.mapM f = .ok results ↔ List.Forall₂ (fun a b => f a = .ok b) items results := by
  induction items generalizing results with
  | nil => simp [pure, Except.pure, eq_comm]
  | cons a items ih =>
      rw [List.mapM_cons, List.forall₂_cons_left_iff]
      simp only [← ih]
      cases f a <;> cases items.mapM f <;> simp [bind, Except.bind, pure, Except.pure, eq_comm]

/-- Related items that are read alike are read alike one after another. -/
theorem mapM_congr_forall₂ {γ : Type} {f : α → Except ε γ} {g : β → Except ε γ} {as : List α} {bs : List β}
    (h : List.Forall₂ (fun a b => g b = f a) as bs) : bs.mapM g = as.mapM f := by
  induction h with
  | nil => rfl
  | cons hab _ ih => rw [List.mapM_cons, List.mapM_cons, hab, ih]

theorem forall_of_forall₂ {R : α → β → Prop} {p : β → Prop} (hp : ∀ a b, R a b → p b) {as : List α}
    {bs : List β} (h : List.Forall₂ R as bs) : ∀ b ∈ bs, p b := by
  induction h with
  | nil => simp
  | cons hab _ ih => exact List.forall_mem_cons.2 ⟨hp _ _ hab, ih⟩

/-- Related lists stay related when each is sorted by a number that related items agree on. -/
theorem forall₂_mergeSort {R : α → β → Prop} {f : α → Int} {g : β → Int}
    (hR : ∀ a b, R a b → f a = g b) {as : List α} {bs : List β} (h : List.Forall₂ R as bs) :
    List.Forall₂ R (as.mergeSort fun a a' => f a ≤ f a') (bs.mergeSort fun b b' => g b ≤ g b') := by
  -- both lists are sides of one list of pairs, and sorting the pairs sorts both
  have hpairs : ∀ p ∈ as.zip bs, R p.1 p.2 := fun p hp => (List.forall₂_iff_zip.1 h).2 hp
  have hleft : (as.zip bs).map Prod.fst = as := List.map_fst_zip h.length_eq.le
  have hright : (as.zip bs).map Prod.snd = bs := List.map_snd_zip h.length_eq.ge
  have hsortleft := List.map_mergeSort (r := fun p q : α × β => f p.1 ≤ f q.1)
    (s := fun a a' => f a ≤ f a') (f := Prod.fst) (l := as.zip bs) fun _ _ _ _ => rfl
  have hsortright := List.map_mergeSort (r := fun p q : α × β => f p.1 ≤ f q.1)
    (s := fun b b' => g b ≤ g b') (f := Prod.snd) (l := as.zip bs) fun p hp q hq => by
      rw [hR _ _ (hpairs p hp), hR _ _ (hpairs q hq)]
  rw [hleft] at hsortleft
  rw [hright] at hsortright
  rw [← hsortleft, ← hsortright, List.forall₂_map_left_iff, List.forall₂_map_right_iff,
    List.forall₂_same]
  intro p hp
  exact hpairs p (List.mem_mergeSort.1 hp)

variable {files : FileSystem} {c : Config} {r : Repository} {m : Member} {result : LayeredConfig.Composite}

theorem dataFileMember_eq_ok_iff {path : String} :
    dataFileMember files path = .ok m ↔
      ∃ table, Table.load files {} path = .ok table ∧
        m = ⟨Int32.minValue.toInt, { provider := table.toProvider }⟩ := by
  unfold dataFileMember firstOrder
  cases Table.load files {} path <;> simp [bind, Except.bind, pure, Except.pure, Except.mapError, eq_comm]

theorem repositoryMember_eq_ok_iff :
    repositoryMember files r = .ok m ↔
      ∃ table, Table.load files r.tableSettings r.dataFile = .ok table ∧
        m = ⟨(r.order.getD 0).toInt,
          { provider := { table with name := r.displayName }.toProvider }⟩ := by
  unfold repositoryMember Repository.place
  cases Table.load files r.tableSettings r.dataFile <;>
    simp [bind, Except.bind, pure, Except.pure, Except.mapError, eq_comm]

theorem dataFileMember_order {path : String} (h : dataFileMember files path = .ok m) :
    m.order = firstOrder.toInt := by
  obtain ⟨table, -, rfl⟩ := dataFileMember_eq_ok_iff.1 h
  rfl

theorem repositoryMember_order (h : repositoryMember files r = .ok m) : r.place = m.order := by
  obtain ⟨table, -, rfl⟩ := repositoryMember_eq_ok_iff.1 h
  rfl

/-- No order of 32 bits is below the one of data files. -/
theorem firstOrder_le_place (r : Repository) : firstOrder.toInt ≤ r.place :=
  Int32.le_toInt _

/-- A composite is loaded if all its tables are, and its members are then added in the sequence in which
they are named. -/
theorem composite_eq_ok_iff {dataFiles : List String} :
    composite files c dataFiles = .ok result ↔
      ∃ further configured,
        List.Forall₂ (fun path m => dataFileMember files path = .ok m) dataFiles further ∧
        List.Forall₂ (fun r m => repositoryMember files r = .ok m) c.repositories configured ∧
          result = (further ++ configured).foldl Composite.add { acceptEmpty := c.acceptEmpty } := by
  simp only [← mapM_eq_ok_iff, composite]
  cases dataFiles.mapM (dataFileMember files) <;>
    cases c.repositories.mapM (repositoryMember files) <;>
      simp [bind, Except.bind, pure, Except.pure, eq_comm]

variable {dataFiles : List String} {repositories : List Repository} {further configured : List Member}

/-- Sorting repositories by their order is sorting their members. -/
theorem sorted_members
    (h : List.Forall₂ (fun r m => repositoryMember files r = .ok m) repositories configured) :
    List.Forall₂ (fun r m => repositoryMember files r = .ok m)
      (repositories.mergeSort fun r s => r.place ≤ s.place)
      (configured.mergeSort fun a b => a.order ≤ b.order) :=
  forall₂_mergeSort (fun _ _ hload => repositoryMember_order hload) h

/-- Repositories that load sorted by their order also load as they are named. -/
theorem exists_sorted_members {members : List Member}
    (h : List.Forall₂ (fun r m => repositoryMember files r = .ok m)
      (repositories.mergeSort fun r s => r.place ≤ s.place) members) :
    ∃ configured, List.Forall₂ (fun r m => repositoryMember files r = .ok m) repositories configured ∧
      members = configured.mergeSort fun a b => a.order ≤ b.order := by
  obtain ⟨configured, hconfigured, -⟩ :=
    List.perm_comp_forall₂ (List.mergeSort_perm repositories _).symm h
  refine ⟨configured, hconfigured, List.right_unique_forall₂' ?_ h (sorted_members hconfigured)⟩
  -- a repository has one member at most
  intro r m m' hm hm'
  exact Except.ok.inj (hm.symm.trans hm')

/-- Adding the data files and then the repositories sorts these behind the data files. -/
theorem foldl_add_loaded
    (hfurther : List.Forall₂ (fun path m => dataFileMember files path = .ok m) dataFiles further)
    (hconfigured : List.Forall₂ (fun r m => repositoryMember files r = .ok m) repositories configured)
    (acceptEmpty : Bool) :
    (further ++ configured).foldl Composite.add { acceptEmpty } =
      { members := further ++ configured.mergeSort fun a b => a.order ≤ b.order, acceptEmpty } := by
  have hfirst : ∀ m ∈ further, m.order = firstOrder.toInt := by
    exact forall_of_forall₂ (fun _ _ hload => dataFileMember_order hload) hfurther
  have hlater : ∀ m ∈ configured, firstOrder.toInt ≤ m.order := by
    refine forall_of_forall₂ (fun r m hload => ?_) hconfigured
    rw [← repositoryMember_order hload]
    exact firstOrder_le_place r
  have hmembers := Composite.members_foldl_add_append hfirst hlater acceptEmpty
  have haccept := Composite.acceptEmpty_foldl_add (further ++ configured) { acceptEmpty }
  cases hresult : (further ++ configured).foldl Composite.add { acceptEmpty } with
  | mk members accept =>
      rw [hresult] at hmembers haccept
      simp only at hmembers haccept
      rw [hmembers, haccept]

/-- The order of consultation.  A composite holds what has been added to it, by ascending order and of one
order as it was added, and there is one place only where a further member can go.  The composite of a
configuration consults the tables of the data files as they are given, at the least order of all, and then
those of the repositories under their display names, sorted stably by their order; it is loaded exactly
if all these tables are. -/
theorem consultation_order :
    (∀ (added : List Member) (acceptEmpty : Bool),
      let reached := added.foldl Composite.add { acceptEmpty }
      reached.members.Perm added ∧ Composite.Ordered reached.members ∧
      (∀ o, reached.members.filter (·.order = o) = added.filter (·.order = o)) ∧
      ∀ member, ∃ n,
        (∀ n', Composite.PartsAt (·.order ≤ member.order) reached.members n' ↔ n' = n) ∧
        (reached.add member).members = reached.members.insertIdx n member) ∧
    ∀ (files : FileSystem) (c : Config) (dataFiles : List String) (result : LayeredConfig.Composite),
      composite files c dataFiles = .ok result ↔
        ∃ further configured,
          List.Forall₂ (fun path m => ∃ table, Table.load files {} path = .ok table ∧
              m = ⟨Int32.minValue.toInt, { provider := table.toProvider }⟩)
            dataFiles further ∧
          List.Forall₂ (fun r m => ∃ table, Table.load files r.tableSettings r.dataFile = .ok table ∧
              m = ⟨(r.order.getD 0).toInt,
                { provider := { table with name := r.displayName }.toProvider }⟩)
            (c.repositories.mergeSort fun r s => (r.order.getD 0).toInt ≤ (s.order.getD 0).toInt)
            configured ∧
          result = { members := further ++ configured, acceptEmpty := c.acceptEmpty } := by
  constructor
  · intro added acceptEmpty reached
    have hempty : Composite.Ordered ({ acceptEmpty } : LayeredConfig.Composite).members :=
      List.Pairwise.nil
    have hordered : Composite.Ordered reached.members := Composite.ordered_foldl_add hempty added
    refine ⟨?_, hordered, Composite.filter_foldl_add hempty added, fun member => ?_⟩
    · rw [show reached.members = _ from Composite.members_foldl_add added acceptEmpty]
      exact List.mergeSort_perm added _
    · exact ⟨_, fun n' => Composite.partsAt_iff hordered member.order, Composite.members_add reached member⟩
  · intro files c dataFiles result
    -- a member is what is loaded from its file
    simp only [← dataFileMember_eq_ok_iff, ← repositoryMember_eq_ok_iff]
    rw [composite_eq_ok_iff]
    constructor
    · rintro ⟨further, configured, hfurther, hconfigured, rfl⟩
      refine ⟨further, _, hfurther, sorted_members hconfigured, ?_⟩
      exact foldl_add_loaded hfurther hconfigured c.acceptEmpty
    · rintro ⟨further, members, hfurther, hmembers, rfl⟩
      obtain ⟨configured, hconfigured, rfl⟩ := exists_sorted_members hmembers
      exact ⟨further, configured, hfurther, hconfigured,
        (foldl_add_loaded hfurther hconfigured c.acceptEmpty).symm⟩

end LayeredConfig.Config
