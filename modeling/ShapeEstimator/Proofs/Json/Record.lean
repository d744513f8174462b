/-
  ShapeEstimator.Proofs.Json.Record
  ────────────────────────────────
  **RECORDS THAT ARE WRITTEN ARE READ BACK.**

  A way of writing values and a way of reading them belong together when each undoes the
  other on the values whose numbers are finite, and nothing else is ever read:

      decode (encode x)  =  x            decode j  =  x   →   x is finite

  The law of a list, of a map, of a table and of a field follows from the law of what it
  holds, so that the law of a record is put together from the laws of its fields.
-/
import ShapeEstimator.Json.Record
import ShapeEstimator.Proofs.Binary64.Shortest
import ShapeEstimator.Proofs.Json.Text

namespace ShapeEstimator

/-- Every number of a list is finite. -/
def AllFinite (xs : List Float) : Prop := ∀ x ∈ xs, x.isFinite = true

instance : DecidablePred AllFinite := fun xs =>
  inferInstanceAs (Decidable (∀ x ∈ xs, x.isFinite = true))

@[simp] theorem allFinite_nil : AllFinite [] := nofun

@[simp] theorem allFinite_cons {x : Float} {xs : List Float} :
    AllFinite (x :: xs) ↔ x.isFinite = true ∧ AllFinite xs := List.forall_mem_cons

/-- An empty map has no number that is not finite. -/
theorem allFinite_empty : ∀ e ∈ (NameMap.empty : NameMap Float).entries, e.2.isFinite = true :=
  fun _ he => absurd he List.not_mem_nil

@[simp] theorem allFinite_append {xs ys : List Float} :
    AllFinite (xs ++ ys) ↔ AllFinite xs ∧ AllFinite ys := List.forall_mem_append

@[simp] theorem allFinite_flatMap {α : Type} {xs : List α} {f : α → List Float} :
    AllFinite (xs.flatMap f) ↔ ∀ a ∈ xs, AllFinite (f a) := List.forall_mem_flatMap

@[simp] theorem allFinite_map {α : Type} {xs : List α} {f : α → Float} :
    AllFinite (xs.map f) ↔ ∀ a ∈ xs, (f a).isFinite = true := List.forall_mem_map

@[simp] theorem allFinite_toList {o : Option Float} :
    AllFinite o.toList ↔ ∀ x, o = some x → x.isFinite = true := by
  cases o with
  | none => exact iff_of_true allFinite_nil nofun
  | some x => simp

namespace Json

/-! ## §1. Writing and reading that belong together. -/

/-- The steps of a decoder that succeeds; to be used from the outside in. -/
theorem bind_eq_some {α β : Type} {m : Option α} {f : α → Option β} {b : β} :
    (m >>= f) = some b ↔ ∃ a, m = some a ∧ f a = some b := Option.bind_eq_some_iff

theorem pure_eq_some {α : Type} {a b : α} : (pure a : Option α) = some b ↔ a = b :=
  Option.some_inj

section Laws

variable {α : Type} {valid : α → Prop} {encode : α → Json} {decode : Json → Option α}

/-- A way of writing and a way of reading belong together, on the valid values of a type. -/
structure Lawful (valid : α → Prop) (encode : α → Json) (decode : Json → Option α) : Prop where
  /-- A valid value that is written is read back. -/
  reads : ∀ x, valid x → decode (encode x) = some x
  /-- Only valid values are read. -/
  accepts : ∀ j x, decode j = some x → valid x
  /-- Null is read as no value. -/
  rejects : decode .null = none

theorem Lawful.encode_ne_null (law : Lawful valid encode decode) {x : α} (hx : valid x) :
    encode x ≠ .null := by
  intro hnull
  have hread := law.reads x hx
  rw [hnull, law.rejects] at hread
  exact nomatch hread

/-! ## §2. Plain values. -/

theorem string_lawful : Lawful (fun _ => True) Json.string string? where
  reads _ _ := rfl
  accepts _ _ _ := trivial
  rejects := rfl

theorem bool_lawful : Lawful (fun _ => True) Json.bool bool? where
  reads _ _ := rfl
  accepts _ _ _ := trivial
  rejects := rfl

theorem float_lawful : Lawful (fun x => x.isFinite = true) ofFloat float? where
  reads x hx := by
    obtain ⟨m, hm⟩ := Binary64.exists_magnitude? hx
    unfold ofFloat
    rw [hm]
    exact JsonNumber.toFloat?_ofMagnitude hm
  accepts j x h := by
    cases j with
    | number n => exact JsonNumber.isFinite_of_toFloat? h
    | _ => exact nomatch h
  rejects := rfl

/-- A double that is not finite is written as null, which is no number. -/
theorem isFinite_of_float? {x y : Float} (h : float? (ofFloat x) = some y) : x.isFinite = true := by
  unfold ofFloat at h
  split at h
  · rename_i m hm
    exact Binary64.isFinite_of_magnitude? hm
  · exact nomatch h

theorem nat64_lawful : Lawful (fun n => n < 2 ^ 64) ofNat nat64? where
  reads n hn := by
    show (if true && !false && decide (n < 2 ^ 64) then some n else none) = some n
    rw [decide_eq_true hn]
    rfl
  accepts j n h := by
    cases j with
    | number m =>
      have h : (if m.whole && !m.negative && decide (m.coefficient < 2 ^ 64) then
        some m.coefficient else none) = some n := h
      split at h
      · rename_i hm
        cases h
        exact of_decide_eq_true (Bool.and_eq_true_iff.1 hm).2
      · exact nomatch h
    | _ => exact nomatch h
  rejects := rfl

/-- Names of different values differ. -/
theorem choice_lawful {names : List (String × α)} {name : α → String}
    (h : ∀ x, names.lookup (name x) = some x) :
    Lawful (fun _ => True) (fun x => .string (name x)) (choice? names) where
  reads x _ := h x
  accepts _ _ _ := trivial
  rejects := rfl

theorem taggedChoice_lawful {names : List (String × α)} {name : α → String}
    (h : ∀ x, names.lookup (name x) = some x) :
    Lawful (fun _ => True) (fun x => .string (name x)) (taggedChoice? names) where
  reads x _ := h x
  accepts _ _ _ := trivial
  rejects := rfl

/-! ## §3. Lists and maps. -/

theorem mapM_eq_some_of_map {β γ : Type} {f : β → γ} {g : γ → Option β} :
    ∀ {xs : List β}, (∀ x ∈ xs, g (f x) = some x) → (xs.map f).mapM g = some xs
  | [], _ => rfl
  | x :: xs, h => by
    rw [List.map_cons, List.mapM_cons, h x List.mem_cons_self,
      mapM_eq_some_of_map fun y hy => h y (List.mem_cons_of_mem _ hy)]
    rfl

theorem exists_of_mem_mapM {β γ : Type} {g : γ → Option β} :
    ∀ {ys : List γ} {xs : List β}, ys.mapM g = some xs → ∀ x ∈ xs, ∃ y ∈ ys, g y = some x
  | [], xs, h, x, hx => by
    cases h
    exact absurd hx List.not_mem_nil
  | y :: ys, xs, h, x, hx => by
    rw [List.mapM_cons] at h
    simp only [↓bind_eq_some, pure_eq_some] at h
    obtain ⟨z, hz, zs, hzs, rfl⟩ := h
    rcases List.mem_cons.1 hx with rfl | hx
    · exact ⟨y, List.mem_cons_self, hz⟩
    · obtain ⟨y', hy', hx'⟩ := exists_of_mem_mapM hzs x hx
      exact ⟨y', List.mem_cons_of_mem _ hy', hx'⟩

theorem Lawful.list (law : Lawful valid encode decode) :
    Lawful (fun xs => ∀ x ∈ xs, valid x) (fun xs => .array (xs.map encode)) (list? decode) where
  reads xs hxs := mapM_eq_some_of_map fun x hx => law.reads x (hxs x hx)
  accepts j xs h := by
    cases j with
    | array items =>
      intro x hx
      obtain ⟨item, _, hitem⟩ := exists_of_mem_mapM h x hx
      exact law.accepts item x hitem
    | _ => exact nomatch h
  rejects := rfl

theorem strings_lawful : Lawful (fun _ => True) ofStrings strings? where
  reads xs _ := string_lawful.list.reads xs fun _ _ => trivial
  accepts _ _ _ := trivial
  rejects := rfl

theorem Lawful.map (law : Lawful valid encode decode) :
    Lawful (fun m => ∀ e ∈ m.entries, valid e.2) (ofMap encode) (map? decode) where
  reads m hm := by
    have hmembers : (m.entries.map fun e => (e.1, encode e.2)).mapM
        (fun m => (decode m.2).map fun x => (m.1, x)) = some m.entries := by
      apply mapM_eq_some_of_map
      intro e he
      show (decode (encode e.2)).map _ = _
      rw [law.reads e.2 (hm e he)]
      rfl
    show Option.map NameMap.ofList _ = _
    rw [hmembers]
    exact congrArg some m.ofList_entries
  accepts j m h := by
    cases j with
    | object members =>
      obtain ⟨es, hes, rfl⟩ := Option.map_eq_some_iff.1 h
      intro e he
      obtain ⟨member, _, hmember⟩ := exists_of_mem_mapM hes e (NameMap.mem_of_mem_ofList he)
      obtain ⟨x, hx, rfl⟩ := Option.map_eq_some_iff.1 hmember
      exact law.accepts _ _ hx
    | _ => exact nomatch h
  rejects := rfl

theorem lookup_of_mem_iff {κ : Type} [BEq κ] [LawfulBEq κ] {es : List (κ × α)} {t : κ → Option α}
    (h : ∀ k x, (k, x) ∈ es ↔ t k = some x) (k : κ) : es.lookup k = t k := by
  cases hlookup : es.lookup k with
  | some x =>
    obtain ⟨before, behind, rfl, _⟩ := List.lookup_eq_some_iff.1 hlookup
    exact ((h k x).1 (by simp)).symm
  | none =>
    cases ht : t k with
    | none => rfl
    | some x =>
      have hne := List.lookup_eq_none_iff.1 hlookup (k, x) ((h k x).2 ht)
      exact absurd hne (by simp)

/-- A table over all keys, whose names tell them apart. -/
theorem Lawful.table {κ : Type} [BEq κ] [LawfulBEq κ] (law : Lawful valid encode decode)
    {keys : List κ} {name : κ → String} {names : List (String × κ)} (hkeys : ∀ k, k ∈ keys)
    (hnames : ∀ k, names.lookup (name k) = some k) :
    Lawful (fun t => ∀ k x, t k = some x → valid x) (ofTable keys name encode)
      (table? names decode) where
  reads t ht := by
    have hmem : ∀ k x,
        (k, x) ∈ keys.filterMap (fun k => (t k).map fun x => (k, x)) ↔ t k = some x := by
      intro k x
      simp [hkeys]
    have hmembers : keys.filterMap (fun k => (t k).map fun x => (name k, encode x))
        = (keys.filterMap fun k => (t k).map fun x => (k, x)).map
          fun e => (name e.1, encode e.2) := by
      rw [List.map_filterMap]
      congr 1
      funext k
      cases t k <;> rfl
    have hread : (keys.filterMap fun k => (t k).map fun x => (name k, encode x)).mapM
        (fun m => (names.lookup m.1).bind fun k => (decode m.2).map fun x => (k, x))
        = some (keys.filterMap fun k => (t k).map fun x => (k, x)) := by
      rw [hmembers]
      apply mapM_eq_some_of_map
      rintro ⟨k, x⟩ he
      dsimp only
      rw [hnames k, law.reads x (ht k x ((hmem k x).1 he))]
      rfl
    show Option.map _ (List.mapM _ _) = _
    rw [hread]
    refine congrArg some (funext fun k => ?_)
    apply lookup_of_mem_iff
    intro k x
    rw [List.mem_reverse]
    exact hmem k x
  accepts j t h := by
    cases j with
    | object members =>
      obtain ⟨es, hes, rfl⟩ := Option.map_eq_some_iff.1 h
      intro k x hx
      obtain ⟨before, behind, heq, _⟩ := List.lookup_eq_some_iff.1 hx
      have he : (k, x) ∈ es := by
        rw [← List.mem_reverse, heq]
        simp
      obtain ⟨member, _, hmember⟩ := exists_of_mem_mapM hes (k, x) he
      obtain ⟨_, _, hmember⟩ := Option.bind_eq_some_iff.1 hmember
      obtain ⟨y, hy, heq⟩ := Option.map_eq_some_iff.1 hmember
      cases heq
      exact law.accepts _ _ hy
    | _ => exact nomatch h
  rejects := rfl

/-! ## §4. Fields. -/

variable {r : Record} {name : String}

theorem Lawful.required (law : Lawful valid encode decode) {x : α}
    (hr : r.fields.lookup name = some (encode x)) (hx : valid x) :
    r.required name decode = some x := by
  unfold Record.required
  rw [hr]
  exact law.reads x hx

theorem Lawful.withDefault (law : Lawful valid encode decode) {x default : α}
    (hr : r.fields.lookup name = some (encode x)) (hx : valid x) :
    r.withDefault name default decode = some x := by
  unfold Record.withDefault
  rw [hr]
  exact law.reads x hx

/-- A field that is left out where it is the default. -/
theorem Lawful.withDefault_unless (law : Lawful valid encode decode) {x default : α}
    {isDefault : Bool}
    (hr : r.fields.lookup name = if isDefault then none else some (encode x))
    (hdefault : isDefault = true → x = default) (hx : valid x) :
    r.withDefault name default decode = some x := by
  cases hcase : isDefault with
  | true =>
    rw [hcase, if_pos rfl] at hr
    unfold Record.withDefault
    rw [hr, hdefault hcase]
  | false =>
    rw [hcase, if_neg Bool.false_ne_true] at hr
    exact law.withDefault hr hx

theorem Lawful.optional (law : Lawful valid encode decode) {x : Option α}
    (hr : r.fields.lookup name = x.map encode) (hx : ∀ y, x = some y → valid y) :
    r.optional name decode = some x := by
  unfold Record.optional
  rw [hr]
  cases x with
  | none => rfl
  | some y =>
    have hy := hx y rfl
    have hnull := law.encode_ne_null hy
    have hread : (decode (encode y)).map some = some (some y) := by
      rw [law.reads y hy]
      rfl
    rw [Option.map_some]
    generalize encode y = j at hnull hread ⊢
    cases j with
    | null => exact absurd rfl hnull
    | _ => exact hread

theorem Lawful.of_required (law : Lawful valid encode decode) {x : α}
    (h : r.required name decode = some x) : valid x := by
  obtain ⟨j, _, hj⟩ := Option.bind_eq_some_iff.1 h
  exact law.accepts j x hj

theorem Lawful.of_withDefault (law : Lawful valid encode decode) {x default : α}
    (hdefault : valid default) (h : r.withDefault name default decode = some x) : valid x := by
  unfold Record.withDefault at h
  split at h
  · cases h
    exact hdefault
  · exact law.accepts _ x h

theorem Lawful.of_optional (law : Lawful valid encode decode) {x : Option α}
    (h : r.optional name decode = some x) : ∀ y, x = some y → valid y := by
  rintro y rfl
  unfold Record.optional at h
  split at h
  · exact nomatch h
  · exact nomatch h
  · obtain ⟨z, hz, heq⟩ := Option.map_eq_some_iff.1 h
    cases heq
    exact law.accepts _ y hz

/-! ## §5. Records. -/

variable {given : List (String × Option Json)} {names : List String}

theorem mem_members {m : String × Json} : m ∈ members given ↔ (m.1, some m.2) ∈ given := by
  unfold members
  rw [List.mem_filterMap]
  constructor
  · rintro ⟨⟨n, o⟩, hmem, heq⟩
    obtain ⟨j, hj, rfl⟩ := Option.map_eq_some_iff.1 heq
    cases hj
    exact hmem
  · intro h
    exact ⟨_, h, rfl⟩

theorem members_names_sublist : ((members given).map (·.1)).Sublist (given.map (·.1)) := by
  unfold members
  induction given with
  | nil => exact List.Sublist.slnil
  | cons m rest ih =>
    obtain ⟨n, o⟩ := m
    cases o with
    | none => exact ih.cons n
    | some j => exact ih.cons_cons n

theorem lookup_members (h : (given.map (·.1)).Nodup) (name : String) :
    (members given).lookup name = (given.lookup name).join := by
  induction given with
  | nil => rfl
  | cons m rest ih =>
    obtain ⟨n, o⟩ := m
    obtain ⟨hn, hrest⟩ := List.nodup_cons.1 h
    rw [NameMap.lookup_cons_ite]
    cases o with
    | some j =>
      show ((n, j) :: members rest).lookup name = _
      rw [NameMap.lookup_cons_ite, ih hrest]
      split <;> rfl
    | none =>
      show (members rest).lookup name = _
      rw [ih hrest]
      split
      · -- the name does not come again
        rename_i heq
        cases hlookup : rest.lookup name with
        | none => rfl
        | some o =>
          obtain ⟨before, behind, rfl, _⟩ := List.lookup_eq_some_iff.1 hlookup
          exact absurd (by simp [heq]) hn
      · rfl

/-- The fields of an object that was written. -/
theorem ofJson?_ofFields (hnames : given.map (·.1) = names) (hn : names.Nodup) :
    Record.ofJson? names (ofFields given) = some ⟨members given⟩ := by
  have hknown : (members given).filter (fun m => decide (m.1 ∈ names)) = members given := by
    rw [List.filter_eq_self]
    intro m hm
    rw [← hnames]
    exact decide_eq_true (members_names_sublist.subset (List.mem_map_of_mem hm))
  show Record.ofMembers? names (members given) = _
  unfold Record.ofMembers?
  dsimp only
  rw [hknown, if_pos (members_names_sublist.nodup (hnames ▸ hn))]

/-- What is made of the fields of an object that was written. -/
theorem bind_ofJson?_ofFields {make : Record → Option α} {x : α}
    (hnames : given.map (·.1) = names) (hn : names.Nodup)
    (h : ∀ r : Record, (∀ name, r.fields.lookup name = (given.lookup name).join) →
      make r = some x) :
    (Record.ofJson? names (ofFields given) >>= make) = some x := by
  rw [ofJson?_ofFields hnames hn]
  exact h _ (lookup_members (by rw [hnames]; exact hn))

/-- What stands in the fields that were read from an object that was written. -/
theorem lookup_of_ofJson? {r : Record} (hnames : given.map (·.1) = names) (hn : names.Nodup)
    (h : Record.ofJson? names (ofFields given) = some r) (name : String) :
    r.fields.lookup name = (given.lookup name).join := by
  rw [ofJson?_ofFields hnames hn] at h
  cases h
  exact lookup_members (by rw [hnames]; exact hn) name

theorem object_eq_ofFields (ms : List (String × Json)) :
    Json.object ms = ofFields (ms.map fun m => (m.1, some m.2)) := by
  unfold ofFields members
  rw [List.filterMap_map]
  exact congrArg Json.object List.filterMap_some.symm

theorem lookup_map_some (ms : List (String × Json)) (name : String) :
    ((ms.map fun m => (m.1, some m.2)).lookup name).join = ms.lookup name := by
  induction ms with
  | nil => rfl
  | cons m rest ih =>
    rw [List.map_cons, NameMap.lookup_cons_ite, NameMap.lookup_cons_ite, ← ih]
    split <;> rfl

/-- The same for an object whose members are all there. -/
theorem bind_ofJson?_object {ms : List (String × Json)} {make : Record → Option α} {x : α}
    (hnames : ms.map (·.1) = names) (hn : names.Nodup)
    (h : ∀ r : Record, (∀ name, r.fields.lookup name = ms.lookup name) → make r = some x) :
    (Record.ofJson? names (.object ms) >>= make) = some x := by
  rw [object_eq_ofFields]
  apply bind_ofJson?_ofFields _ hn
  · intro r hr
    exact h r fun name => (hr name).trans (lookup_map_some ms name)
  · rw [List.map_map]
    exact hnames

theorem lookup_of_ofJson?_object {ms : List (String × Json)} {r : Record}
    (hnames : ms.map (·.1) = names) (hn : names.Nodup)
    (h : Record.ofJson? names (.object ms) = some r) (name : String) :
    r.fields.lookup name = ms.lookup name := by
  rw [object_eq_ofFields] at h
  rw [lookup_of_ofJson? _ hn h, lookup_map_some]
  rw [List.map_map]
  exact hnames

theorem bind_ofMembers? {ms : List (String × Json)} {make : Record → Option α} {x : α}
    (hnames : ms.map (·.1) = names) (hn : names.Nodup)
    (h : ∀ r : Record, (∀ name, r.fields.lookup name = ms.lookup name) → make r = some x) :
    (Record.ofMembers? names ms >>= make) = some x := bind_ofJson?_object hnames hn h

/-! ## §6. Tagged records. -/

theorem splitTag?_ofFields {tag : String} {value : Json} (htag : tag ∉ given.map (·.1))
    (hread : (ofFields ((tag, some value) :: given)).isReadable = true) :
    splitTag? tag (ofFields ((tag, some value) :: given)) = some (value, ofFields given) := by
  have hother : ∀ m ∈ members given, (m.1 == tag) = false := by
    intro m hm
    apply beq_false_of_ne
    rintro rfl
    exact htag (members_names_sublist.subset (List.mem_map_of_mem hm))
  have hwith : ((tag, value) :: members given).filter (fun m => m.1 == tag) = [(tag, value)] := by
    rw [List.filter_cons_of_pos (by simp), List.filter_eq_nil_iff.2]
    intro m hm
    rw [hother m hm]
    exact Bool.false_ne_true
  have hwithout : ((tag, value) :: members given).filter (fun m => m.1 != tag)
      = members given := by
    rw [List.filter_cons_of_neg (by simp), List.filter_eq_self]
    intro m hm
    rw [bne, hother m hm]
    rfl
  have hobject : ofFields ((tag, some value) :: given) = .object ((tag, value) :: members given) :=
    rfl
  unfold splitTag?
  rw [hread, if_neg (by decide), hobject]
  dsimp only
  rw [hwith, hwithout]
  rfl

theorem splitTag?_object {ms : List (String × Json)} {tag : String} {value : Json}
    (htag : tag ∉ ms.map (·.1)) (hread : (Json.object ((tag, value) :: ms)).isReadable = true) :
    splitTag? tag (.object ((tag, value) :: ms)) = some (value, .object ms) := by
  rw [object_eq_ofFields] at hread ⊢
  rw [List.map_cons] at hread ⊢
  rw [splitTag?_ofFields _ hread, ← object_eq_ofFields]
  rw [List.map_map]
  exact htag

@[simp] theorem name?_string (form : TagForm) (names : List String) (s : String) :
    form.name? names (.string s) = some s := rfl

/-! ## §7. Depth. -/

theorem allFit_iff {levels : Nat} {items : List Json} :
    AllFit levels items ↔ ∀ j ∈ items, j.Fits levels := by
  induction items with
  | nil => exact iff_of_true trivial nofun
  | cons j rest ih => rw [AllFit, ih, List.forall_mem_cons]

theorem membersFit_iff {levels : Nat} {ms : List (String × Json)} :
    MembersFit levels ms ↔ ∀ m ∈ ms, m.2.Fits levels := by
  induction ms with
  | nil => exact iff_of_true trivial nofun
  | cons m rest ih => rw [MembersFit, ih, List.forall_mem_cons]

@[simp] theorem fits_bool (levels : Nat) (b : Bool) : (Json.bool b).Fits levels := by
  cases levels <;> trivial

@[simp] theorem fits_string (levels : Nat) (s : String) : (Json.string s).Fits levels := by
  cases levels <;> trivial

@[simp] theorem fits_ofNat (levels n : Nat) : (ofNat n).Fits levels := by
  cases levels <;> exact fun _ => rfl

@[simp] theorem fits_ofFloat (levels : Nat) (x : Float) : (ofFloat x).Fits levels := by
  unfold ofFloat
  split
  · rename_i m _
    have hwhole := JsonNumber.whole_ofMagnitude (Binary64.signBit x) m
    cases levels <;> exact fun h => absurd (hwhole.symm.trans h) Bool.false_ne_true
  · cases levels <;> trivial

@[simp] theorem fits_array {levels : Nat} {items : List Json} :
    (Json.array items).Fits (levels + 1) ↔ ∀ j ∈ items, j.Fits levels := allFit_iff

@[simp] theorem fits_object {levels : Nat} {ms : List (String × Json)} :
    (Json.object ms).Fits (levels + 1) ↔ ∀ m ∈ ms, m.2.Fits levels := membersFit_iff

@[simp] theorem fits_ofFields {levels : Nat} :
    (ofFields given).Fits (levels + 1) ↔ ∀ m ∈ given, ∀ j, m.2 = some j → j.Fits levels := by
  show (Json.object (members given)).Fits (levels + 1) ↔ _
  rw [fits_object]
  constructor
  · rintro h ⟨n, o⟩ hm j rfl
    exact h (n, j) (mem_members.2 hm)
  · intro h m hm
    exact h _ (mem_members.1 hm) m.2 rfl

@[simp] theorem fits_ofStrings (levels : Nat) (texts : List String) :
    (ofStrings texts).Fits (levels + 1) := by
  simp [ofStrings]

@[simp] theorem fits_ofMap {levels : Nat} {m : NameMap α} :
    (ofMap encode m).Fits (levels + 1) ↔ ∀ e ∈ m.entries, (encode e.2).Fits levels := by
  rw [ofMap, fits_object, List.forall_mem_map]

theorem fits_ofTable {κ : Type} {levels : Nat} (keys : List κ) (name : κ → String)
    (t : κ → Option α) (h : ∀ x, (encode x).Fits levels) :
    (ofTable keys name encode t).Fits (levels + 1) := by
  unfold ofTable
  rw [fits_object]
  intro m hm
  obtain ⟨k, _, hk⟩ := List.mem_filterMap.1 hm
  obtain ⟨x, _, rfl⟩ := Option.map_eq_some_iff.1 hk
  exact h x

/-! ## §8. Values that can be read as a whole. -/

theorem allReadable_iff {items : List Json} :
    allReadable items = true ↔ ∀ j ∈ items, j.isReadable = true := by
  induction items with
  | nil => exact iff_of_true rfl nofun
  | cons j rest ih => rw [allReadable, Bool.and_eq_true, ih, List.forall_mem_cons]

theorem allMembersReadable_iff {ms : List (String × Json)} :
    allMembersReadable ms = true ↔ ∀ m ∈ ms, m.2.isReadable = true := by
  induction ms with
  | nil => exact iff_of_true rfl nofun
  | cons m rest ih => rw [allMembersReadable, Bool.and_eq_true, ih, List.forall_mem_cons]

@[simp] theorem isReadable_string (s : String) : (Json.string s).isReadable = true := rfl

@[simp] theorem isReadable_bool (b : Bool) : (Json.bool b).isReadable = true := rfl

/-- A double that is not finite is written as null, which can be read. -/
@[simp] theorem isReadable_ofFloat (x : Float) : (ofFloat x).isReadable = true := by
  unfold ofFloat
  split
  · rename_i m hm
    show (JsonNumber.toFloat? _).isSome = true
    rw [JsonNumber.toFloat?_ofMagnitude hm]
    rfl
  · rfl

@[simp] theorem isReadable_array {items : List Json} :
    (Json.array items).isReadable = true ↔ ∀ j ∈ items, j.isReadable = true := allReadable_iff

@[simp] theorem isReadable_object {ms : List (String × Json)} :
    (Json.object ms).isReadable = true ↔ ∀ m ∈ ms, m.2.isReadable = true := allMembersReadable_iff

@[simp] theorem isReadable_ofFields :
    (ofFields given).isReadable = true ↔ ∀ m ∈ given, ∀ j, m.2 = some j → j.isReadable = true := by
  show (Json.object (members given)).isReadable = true ↔ _
  rw [isReadable_object]
  constructor
  · rintro h ⟨n, o⟩ hm j rfl
    exact h (n, j) (mem_members.2 hm)
  · intro h m hm
    exact h _ (mem_members.1 hm) m.2 rfl

@[simp] theorem isReadable_ofStrings (texts : List String) :
    (ofStrings texts).isReadable = true := by
  simp [ofStrings]

@[simp] theorem isReadable_ofMap {m : NameMap α} :
    (ofMap encode m).isReadable = true ↔ ∀ e ∈ m.entries, (encode e.2).isReadable = true := by
  rw [ofMap, isReadable_object, List.forall_mem_map]

/-! ## §9. Texts. -/

/-- The value that a text stands for. -/
def decodeText? (decode : Json → Option α) (text : String) : Option α := (read? text).bind decode

/-- The text that a writer lays out for the value that a text stands for. -/
def rewritten? (writer : Json → String) (encode : α → Json) (decode : Json → Option α)
    (text : String) : Option String :=
  (decodeText? decode text).map fun x => writer (encode x)

/-- The valid values of a type survive being written and read, and what is written for a text
stays as it is; by the writer without white space and by the one over lines. -/
structure RoundTrips (valid : α → Prop) (encode : α → Json) (decode : Json → Option α) : Prop where
  /-- A valid value that is written is read back. -/
  reads : ∀ w ∈ [write, pretty], ∀ x, valid x → decodeText? decode (w (encode x)) = some x
  /-- The text that is written for an accepted text is written for itself. -/
  normal : ∀ w ∈ [write, pretty], ∀ text text', rewritten? w encode decode text = some text' →
    rewritten? w encode decode text' = some text'

theorem read?_of_mem_writers {w : Json → String} (hw : w ∈ [write, pretty]) {j : Json}
    (h : j.Fits maxLevels) : read? (w j) = some j := by
  rcases List.mem_pair.1 hw with rfl | rfl
  · exact read?_write h
  · exact read?_pretty h

/-- Only valid values are read from a text. -/
theorem Lawful.of_decodeText? (law : Lawful valid encode decode) {text : String} {x : α}
    (h : decodeText? decode text = some x) : valid x := by
  obtain ⟨j, _, hj⟩ := Option.bind_eq_some_iff.1 h
  exact law.accepts j x hj

/-- Reading what was written for a value is decoding it. -/
theorem decodeText?_of_mem_writers {w : Json → String} (hw : w ∈ [write, pretty]) {j : Json}
    (h : j.Fits maxLevels) : decodeText? decode (w j) = decode j := by
  unfold decodeText?
  rw [read?_of_mem_writers hw h]
  rfl

theorem Lawful.roundTrips (law : Lawful valid encode decode)
    (hfits : ∀ x, (encode x).Fits maxLevels) : RoundTrips valid encode decode := by
  have hreads : ∀ w ∈ [write, pretty], ∀ x, valid x →
      decodeText? decode (w (encode x)) = some x := by
    intro w hw x hx
    rw [decodeText?_of_mem_writers hw (hfits x)]
    exact law.reads x hx
  refine ⟨hreads, ?_⟩
  intro w hw text text' h
  obtain ⟨x, hx, rfl⟩ := Option.map_eq_some_iff.1 h
  -- what is read is valid, so it is read back from its own text
  unfold rewritten?
  rw [hreads w hw x (law.of_decodeText? hx)]
  rfl

end Laws

end Json

end ShapeEstimator
