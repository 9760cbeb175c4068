import LayeredConfig.Proofs.Document.Scalars

/-!
# Overlaying documents

One document over another: maps are overlaid key by key, and anything else replaces what is below it as
a whole.  The two documents are compatible if they hold values of one kind wherever both hold one on a
path of names.

* `atNames?_overlay` — on a path of names the overlay holds the overlay of what the documents hold there.
* `scalarAt?_overlayAll_names` — so a scalar on such a path is that of the first document with one.
* `scalarAt?_overlayAll_index` — and a scalar in a list is that of the first document with the list.
-/

namespace LayeredConfig.Value

open Key (Segment)

mutual

/-- A value over another one: an object over an object is overlaid member by member, and anything else
replaces what is below it. -/
def overlay : Value → Value → Value
  | .object upper, .object lower => .object (overlayMembers upper lower)
  | upper, _ => upper

/-- Members over those of the same names, followed by the members below that are left. -/
def overlayMembers : List (String × Value) → List (String × Value) → List (String × Value)
  | [], lower => lower
  | (k, u) :: rest, lower =>
    (k, (Entries.get? k lower).elim u (overlay u)) ::
      overlayMembers rest (lower.filter fun e => e.1 ≠ k)

end

/-- Documents over one another, the first one on top. -/
def overlayAll : Value → List Value → Value
  | top, [] => top
  | top, next :: rest => top.overlay (overlayAll next rest)

/-- The kinds of values. -/
inductive Kind where
  | map
  | list
  | scalar
  deriving DecidableEq

/-- The kind of a value. -/
def kind : Value → Kind
  | .object _ => .map
  | .array _ => .list
  | _ => .scalar

/-- The value on a path of names. -/
def atNames? (v : Value) (names : List String) : Option Value := v.atPath? (names.map Segment.name)

/-- Two documents that hold values of one kind wherever both hold one on a path of names. -/
def Compatible (u l : Value) : Prop :=
  ∀ names a b, u.atNames? names = some a → l.atNames? names = some b → a.kind = b.kind

/-- Whether there is a list on a path of names. -/
def HoldsList (v : Value) (names : List String) : Prop := ∃ w ∈ v.atNames? names, w.kind = .list

instance (v : Value) (names : List String) : Decidable (v.HoldsList names) :=
  inferInstanceAs (Decidable (∃ w ∈ v.atNames? names, w.kind = .list))

variable {t u l v a b : Value} {upper lower : List (String × Value)} {names : List String}
  {path : List Segment} {i : Nat}

/-! ## Kinds -/

theorem isScalar_iff : v.IsScalar ↔ v.kind = .scalar := by
  cases v <;> simp [IsScalar, kind]

theorem exists_of_kind_map (h : v.kind = .map) : ∃ members, v = .object members := by
  cases v <;> simp [kind] at h
  exact ⟨_, rfl⟩

theorem overlay_of_kind_ne (h : u.kind ≠ .map) : overlay u l = u := by
  cases u with
  | object members => exact absurd rfl h
  | null | bool | number | string | array => rw [overlay]; simp

theorem overlay_of_kind_right_ne (h : l.kind ≠ .map) : overlay u l = u := by
  by_cases hu : u.kind = .map
  · obtain ⟨upper, rfl⟩ := exists_of_kind_map hu
    cases l with
    | object members => exact absurd rfl h
    | null | bool | number | string | array => rw [overlay]; simp
  · exact overlay_of_kind_ne hu

theorem kind_overlay : (overlay u l).kind = u.kind := by
  by_cases hu : u.kind = .map
  · obtain ⟨upper, rfl⟩ := exists_of_kind_map hu
    cases l <;> simp [overlay, kind]
  · rw [overlay_of_kind_ne hu]

theorem atPath?_index_of_kind_ne (h : v.kind ≠ .list) (i : Nat) (path : List Segment) :
    v.atPath? (.index i :: path) = none := by
  cases v with
  | array items => exact absurd rfl h
  | null | bool | number | string | object => rfl

theorem atNames?_cons_of_kind_ne (h : v.kind ≠ .map) (k : String) (names : List String) :
    v.atNames? (k :: names) = none := by
  cases v with
  | object members => exact absurd rfl h
  | null | bool | number | string | array => rfl

/-! ## Along names -/

theorem atNames?_object_cons (members : List (String × Value)) (k : String) (names : List String) :
    (Value.object members).atNames? (k :: names) =
      (Entries.get? k members).bind (·.atNames? names) := rfl

theorem get?_overlayMembers (upper lower : List (String × Value)) (k : String) :
    Entries.get? k (overlayMembers upper lower) =
      Option.merge overlay (Entries.get? k upper) (Entries.get? k lower) := by
  induction upper generalizing lower with
  | nil => cases h : Entries.get? k lower <;> simp [overlayMembers, Entries.get?, h]
  | cons e rest ih =>
      obtain ⟨k', u⟩ := e
      rw [overlayMembers, Entries.get?, Entries.get?]
      by_cases hk : k' = k
      · subst hk
        cases Entries.get? k' lower <;> simp
      · have hfilter := Entries.get?_filter (fun s => decide (s ≠ k')) lower k
        rw [if_neg hk, if_neg hk, ih, hfilter, if_pos (by simpa using Ne.symm hk)]

/-- Objects are compatible if their members of one name are. -/
theorem compatible_object_iff :
    Compatible (.object upper) (.object lower) ↔
      ∀ k a b, Entries.get? k upper = some a → Entries.get? k lower = some b → Compatible a b := by
  constructor
  · intro h k a b ha hb names a' b' ha' hb'
    refine h (k :: names) a' b' ?_ ?_
    · rwa [atNames?_object_cons, ha]
    · rwa [atNames?_object_cons, hb]
  · intro h names a' b' ha' hb'
    cases names with
    | nil =>
        obtain rfl := Option.some.inj ha'
        obtain rfl := Option.some.inj hb'
        rfl
    | cons k names =>
        rw [atNames?_object_cons] at ha' hb'
        obtain ⟨a, ha, ha'⟩ := Option.bind_eq_some_iff.1 ha'
        obtain ⟨b, hb, hb'⟩ := Option.bind_eq_some_iff.1 hb'
        exact h k a b ha hb names a' b' ha' hb'

/-- Other values are compatible if they are of one kind. -/
theorem compatible_of_kind_ne (hkind : u.kind = l.kind) (hu : u.kind ≠ .map) : Compatible u l := by
  intro names a b ha hb
  cases names with
  | nil =>
      obtain rfl := Option.some.inj ha
      obtain rfl := Option.some.inj hb
      exact hkind
  | cons k names =>
      rw [atNames?_cons_of_kind_ne hu] at ha
      contradiction

/-- On a path of names the overlay holds the overlay of what the documents hold there. -/
theorem atNames?_overlay (h : Compatible u l) (names : List String) :
    (overlay u l).atNames? names = Option.merge overlay (u.atNames? names) (l.atNames? names) := by
  induction names generalizing u l with
  | nil => rfl
  | cons k names ih =>
      have hkind : u.kind = l.kind := h [] u l rfl rfl
      by_cases hu : u.kind = .map
      · obtain ⟨upper, rfl⟩ := exists_of_kind_map hu
        obtain ⟨lower, rfl⟩ := exists_of_kind_map (hkind ▸ hu)
        rw [overlay, atNames?_object_cons, atNames?_object_cons, atNames?_object_cons,
          get?_overlayMembers]
        cases ha : Entries.get? k upper with
        | none => cases Entries.get? k lower <;> simp
        | some a =>
            cases hb : Entries.get? k lower with
            | none => simp
            | some b => exact ih (compatible_object_iff.1 h k a b ha hb)
      · rw [overlay_of_kind_ne hu, atNames?_cons_of_kind_ne hu,
          atNames?_cons_of_kind_ne (hkind ▸ hu)]
        rfl

theorem Compatible.overlay_right (hu : Compatible t u) (hl : Compatible t l)
    (h : Compatible u l) : Compatible t (overlay u l) := by
  intro names a b ha hb
  rw [atNames?_overlay h] at hb
  cases hc : u.atNames? names with
  | none =>
      rw [hc, Option.merge_none_left] at hb
      exact hl names a b ha hb
  | some c =>
      -- the kind is that of the upper value, whatever is below it
      have hkind : b.kind = c.kind := by
        cases hd : l.atNames? names with
        | none => simp_all
        | some d =>
            rw [hc, hd] at hb
            obtain rfl := Option.some.inj hb
            exact kind_overlay
      rw [hkind]
      exact hu names a c ha hc

/-! ## Scalars -/

theorem atPath?_names_append (v : Value) (names : List String) (path : List Segment) :
    v.atPath? (names.map Segment.name ++ path) = (v.atNames? names).bind (·.atPath? path) :=
  atPath?_append ..

theorem scalarAt?_names (v : Value) (names : List String) :
    v.scalarAt? (names.map Segment.name) = (v.atNames? names).filter (·.kind = .scalar) := by
  simp only [scalarAt?, isScalar_iff]
  rfl

/-- A scalar behind an index is in a list. -/
theorem holdsList_of_scalarAt?
    (h : v.scalarAt? (names.map Segment.name ++ .index i :: path) = some a) : v.HoldsList names := by
  have hat := (scalarAt?_eq_some.1 h).1
  rw [atPath?_names_append] at hat
  obtain ⟨c, hc, hat⟩ := Option.bind_eq_some_iff.1 hat
  refine ⟨c, hc, ?_⟩
  by_contra hkind
  rw [atPath?_index_of_kind_ne hkind] at hat
  contradiction

/-- A scalar on a path of names is the upper one, or else the lower one. -/
theorem scalarAt?_overlay_names (h : Compatible u l) (names : List String) :
    (overlay u l).scalarAt? (names.map Segment.name) =
      (u.scalarAt? (names.map Segment.name)).or (l.scalarAt? (names.map Segment.name)) := by
  simp only [scalarAt?_names]
  rw [atNames?_overlay h]
  cases ha : u.atNames? names with
  | none => simp
  | some a =>
      cases hb : l.atNames? names with
      | none => simp
      | some b =>
          have hkind := h names a b ha hb
          by_cases hscalar : a.kind = .scalar
          · have hover : overlay a b = a := overlay_of_kind_ne (by simp [hscalar])
            simp [hover, hscalar, Option.filter_some]
          · simp [kind_overlay, ← hkind, hscalar, Option.filter_some]

/-- What is in a list is in the upper one, or else in the lower one. -/
theorem scalarAt?_overlay_index (h : Compatible u l) (names : List String) (i : Nat)
    (path : List Segment) :
    (overlay u l).scalarAt? (names.map Segment.name ++ .index i :: path) =
      if u.HoldsList names then u.scalarAt? (names.map Segment.name ++ .index i :: path)
      else l.scalarAt? (names.map Segment.name ++ .index i :: path) := by
  simp only [scalarAt?, atPath?_names_append, HoldsList]
  rw [atNames?_overlay h]
  cases ha : u.atNames? names with
  | none => simp
  | some a =>
      by_cases hlist : a.kind = .list
      · cases hb : l.atNames? names with
        | none => simp [hlist]
        | some b =>
            have hover : overlay a b = a := overlay_of_kind_ne (by simp [hlist])
            simp [hover, hlist]
      · -- there is no list in either of the documents
        cases hb : l.atNames? names with
        | none => simp [hlist, atPath?_index_of_kind_ne hlist]
        | some b =>
            have hlist' : b.kind ≠ .list := h names a b ha hb ▸ hlist
            have hover : (overlay a b).kind ≠ .list := by rwa [kind_overlay]
            simp [hlist, atPath?_index_of_kind_ne hover, atPath?_index_of_kind_ne hlist']

/-! ## Many documents -/

variable {top : Value} {rest : List Value}

/-- What is compatible with each of some documents is compatible with their overlay. -/
theorem Compatible.overlayAll (h : ∀ d ∈ top :: rest, Compatible t d)
    (hkinds : (top :: rest).Pairwise Compatible) : Compatible t (overlayAll top rest) := by
  induction rest generalizing t top with
  | nil => exact h top (by simp)
  | cons next rest ih =>
      obtain ⟨htop, hrest⟩ := List.pairwise_cons.1 hkinds
      exact (h top (by simp)).overlay_right (ih (fun d hd => h d (List.mem_cons_of_mem top hd)) hrest)
        (ih htop hrest)

/-- A scalar on a path of names is that of the first document with one. -/
theorem scalarAt?_overlayAll_names (hkinds : (top :: rest).Pairwise Compatible)
    (names : List String) :
    (overlayAll top rest).scalarAt? (names.map Segment.name) =
      (top :: rest).findSome? (·.scalarAt? (names.map Segment.name)) := by
  induction rest generalizing top with
  | nil => cases h : top.scalarAt? (names.map Segment.name) <;> simp [overlayAll, h]
  | cons next rest ih =>
      obtain ⟨htop, hrest⟩ := List.pairwise_cons.1 hkinds
      rw [Value.overlayAll, scalarAt?_overlay_names (Compatible.overlayAll htop hrest), ih hrest]
      simp only [List.findSome?_cons]
      cases top.scalarAt? (names.map Segment.name) <;> rfl

/-- What is in a list is that of the first document with the list. -/
theorem scalarAt?_overlayAll_index (hkinds : (top :: rest).Pairwise Compatible)
    (names : List String) (i : Nat) (path : List Segment) :
    (overlayAll top rest).scalarAt? (names.map Segment.name ++ .index i :: path) =
      ((top :: rest).find? fun d => d.HoldsList names).bind
        (·.scalarAt? (names.map Segment.name ++ .index i :: path)) := by
  have hnone : ∀ d : Value, ¬ d.HoldsList names →
      d.scalarAt? (names.map Segment.name ++ .index i :: path) = none := fun d hd =>
    Option.eq_none_iff_forall_ne_some.2 fun a ha => hd (holdsList_of_scalarAt? ha)
  induction rest generalizing top with
  | nil => by_cases htop : top.HoldsList names <;> simp [overlayAll, htop, hnone]
  | cons next rest ih =>
      obtain ⟨htop, hrest⟩ := List.pairwise_cons.1 hkinds
      rw [Value.overlayAll, scalarAt?_overlay_index (Compatible.overlayAll htop hrest), ih hrest,
        List.find?_cons (a := top)]
      by_cases h : top.HoldsList names <;> simp [h]

/-! ## Regular maps -/

/-- A list of a regular map has a scalar in it. -/
theorem RegularMap.exists_scalar {n : String} (h : RegularMap v) (hlist : v.HoldsList (n :: names)) :
    ∃ i path a, v.scalarAt? ((n :: names).map Segment.name ++ .index i :: path) = some a := by
  obtain ⟨c, hc, hkind⟩ := hlist
  obtain ⟨hregular, -⟩ := h.atPath? hc
  obtain ⟨path, a, ha⟩ := hregular.exists_scalar
  obtain ⟨hat, hscalar⟩ := scalarAt?_eq_some.1 ha
  -- the path to a scalar of the list starts with an index
  cases c with
  | array items =>
      rcases path with _ | ⟨m | i, path⟩
      · obtain rfl := Option.some.inj hat
        exact hscalar.elim
      · contradiction
      · refine ⟨i, path, a, scalarAt?_eq_some.2 ⟨?_, hscalar⟩⟩
        rw [atPath?_names_append, show v.atNames? (n :: names) = some (.array items) from hc]
        exact hat
  | null | bool | number | string | object => contradiction

theorem nodup_keys_overlayMembers (hupper : (Entries.keys upper).Nodup)
    (hlower : (Entries.keys lower).Nodup) : (Entries.keys (overlayMembers upper lower)).Nodup := by
  induction upper generalizing lower with
  | nil => rwa [overlayMembers]
  | cons e rest ih =>
      obtain ⟨k, u⟩ := e
      obtain ⟨hnew, hrest⟩ := List.nodup_cons.1 hupper
      have hbelow := Entries.keys_filter (fun s => decide (s ≠ k)) lower
      rw [overlayMembers, Entries.keys_cons, List.nodup_cons]
      refine ⟨?_, ih hrest (by rw [hbelow]; exact hlower.filter _)⟩
      rw [← Entries.get?_eq_none_iff, get?_overlayMembers, Entries.get?_eq_none_iff.2 hnew,
        Option.merge_none_left, Entries.get?_eq_none_iff, hbelow]
      simp

/-- A member of an overlay comes from one of the objects, or is one over another. -/
theorem mem_overlayMembers (hupper : (Entries.keys upper).Nodup)
    (hlower : (Entries.keys lower).Nodup) {e : String × Value}
    (he : e ∈ overlayMembers upper lower) :
    e ∈ upper ∨ e ∈ lower ∨
      ∃ a b, (e.1, a) ∈ upper ∧ (e.1, b) ∈ lower ∧ e.2 = overlay a b := by
  obtain ⟨k, v⟩ := e
  rw [Entries.mem_iff_get? (nodup_keys_overlayMembers hupper hlower), get?_overlayMembers] at he
  simp only [Entries.mem_iff_get? hupper, Entries.mem_iff_get? hlower]
  cases ha : Entries.get? k upper with
  | none => simp_all
  | some a =>
      cases hb : Entries.get? k lower with
      | none => simp_all
      | some b =>
          rw [ha, hb] at he
          exact .inr (.inr ⟨a, b, rfl, rfl, (Option.some.inj he).symm⟩)

/-- Regular maps overlay to one if their members do. -/
theorem RegularMap.overlayMembers (hu : RegularMap (.object upper))
    (hl : RegularMap (.object lower))
    (h : ∀ e ∈ upper, ∀ b : Value, b.Regular → (e.2.overlay b).Regular) :
    RegularMap (.object (overlayMembers upper lower)) := by
  cases hu with
  | object hnodup hnames hmembers =>
      cases hl with
      | object hnodup' hnames' hmembers' =>
          refine .object (nodup_keys_overlayMembers hnodup hnodup') ?_ ?_
          · intro e he
            rcases mem_overlayMembers hnodup hnodup' he with he | he | ⟨a, b, ha, -, -⟩
            · exact hnames e he
            · exact hnames' e he
            · exact hnames (e.1, a) ha
          · intro e he
            rcases mem_overlayMembers hnodup hnodup' he with he | he | ⟨a, b, ha, hb, hab⟩
            · exact hmembers e he
            · exact hmembers' e he
            · rw [hab]
              exact h _ ha b (hmembers' _ hb)

theorem Regular.overlay (hu : u.Regular) (hl : l.Regular) : (overlay u l).Regular := by
  induction hu generalizing l with
  | scalar h =>
      rw [overlay_of_kind_ne (by simp [isScalar_iff.1 h])]
      exact .scalar h
  | array hne hlength hitems =>
      rw [overlay_of_kind_ne (by simp [kind])]
      exact .array hne hlength hitems
  | @object upper hne hnodup hnames hmembers ih =>
      by_cases hkind : l.kind = .map
      · obtain ⟨lower, rfl⟩ := exists_of_kind_map hkind
        have hmap := RegularMap.overlayMembers (.object hnodup hnames hmembers) hl.regularMap
          fun e he b => ih e he
        rw [Value.overlay]
        refine hmap.regular ?_
        cases upper with
        | nil => exact absurd rfl hne
        | cons e rest => simp [Value.overlayMembers]
      · rw [overlay_of_kind_right_ne hkind]
        exact .object hne hnodup hnames hmembers

theorem RegularMap.overlay (hu : RegularMap u) (hl : RegularMap l) : RegularMap (overlay u l) := by
  cases hu with
  | object hnodup hnames hmembers =>
      cases hl with
      | object hnodup' hnames' hmembers' =>
          rw [Value.overlay]
          exact RegularMap.overlayMembers (.object hnodup hnames hmembers)
            (.object hnodup' hnames' hmembers') fun e he b hb => (hmembers e he).overlay hb

theorem RegularMap.overlayAll (h : ∀ d ∈ top :: rest, RegularMap d) :
    RegularMap (overlayAll top rest) := by
  induction rest generalizing top with
  | nil => exact h top (by simp)
  | cons next rest ih =>
      exact (h top (by simp)).overlay (ih fun d hd => h d (List.mem_cons_of_mem top hd))

end LayeredConfig.Value
