/-
  ShapeEstimator.Proofs.Catalog.Listing
  ────────────────────────────────
  **WHAT A CATALOG HANDS OUT.**

  A stamp is computed for each shape anew: its place is looked for among the shapes of
  its group, by its key.  Where no two shapes have one key, the place found is the place
  the shape has, so the codes of a group count it through and all codes differ:

      place g (members g)[i].key  =  i + 1
      shapeCode g m = shapeCode h n   →   g = h  and  m = n

  What is handed out for a group is a part of what is handed out for all.
-/
import Mathlib.Algebra.GroupWithZero.Nat
import Mathlib.Data.List.Forall2
import ShapeEstimator.Catalog.Standard
import ShapeEstimator.Proofs.Json.Number

namespace ShapeEstimator

/-! ## §1. Codes. -/

/-- The digits of a number, with zeros in front only as far as the width asks for them. -/
structure Text.IsPadded (width n : Nat) (ds : List Char) : Prop where
  /-- There are only digits. -/
  isDigit : ∀ c ∈ ds, c.isDigit = true
  /-- They stand for the number. -/
  value_eq : digitsValue ds = n
  /-- There are as many as the width asks for. -/
  width_le : width ≤ ds.length
  /-- Beyond the width there is no zero in front. -/
  head_ne : width < ds.length → ds.head? ≠ some '0'

theorem Text.isPadded_paddedDigits (width : Nat) {n : Nat} (hn : n ≠ 0) :
    IsPadded width n (paddedDigits width n) where
  isDigit := fun _ => isDigit_of_mem_paddedDigits
  value_eq := digitsValue_paddedDigits width n
  width_le := by
    unfold paddedDigits
    rw [List.length_append, List.length_replicate]
    omega
  head_ne := by
    intro hlong
    unfold paddedDigits at hlong ⊢
    rw [List.length_append, List.length_replicate] at hlong
    -- more digits than the width leave no room for a zero
    have hzeros : width - (digits n).length = 0 := by omega
    rw [hzeros, List.replicate_zero, List.nil_append]
    exact head?_digits hn

theorem Text.paddedDigits_inj {width m n : Nat} (h : paddedDigits width m = paddedDigits width n) :
    m = n := by
  rw [← digitsValue_paddedDigits width m, h, digitsValue_paddedDigits]

theorem Group.codeLetters_inj {g h : Group} (heq : g.codeLetters = h.codeLetters) : g = h := by
  revert heq
  cases g <;> cases h <;> decide

theorem Group.length_codeLetters (g : Group) : g.codeLetters.toList.length = 3 := by
  cases g <;> decide

/-- Codes tell groups and places apart. -/
theorem shapeCode_inj {g h : Group} {m n : Nat} (heq : shapeCode g m = shapeCode h n) :
    g = h ∧ m = n := by
  have hlists := congrArg String.toList heq
  simp only [shapeCode, String.toList_append, String.toList_ofList, List.append_assoc] at hlists
  -- the letters are three in each group, so they end at the same place
  obtain ⟨hletters, hrest⟩ := List.append_inj hlists (by
    rw [Group.length_codeLetters, Group.length_codeLetters])
  have hdigits := List.append_cancel_left hrest
  exact ⟨Group.codeLetters_inj (String.toList_injective hletters), Text.paddedDigits_inj hdigits⟩

namespace Catalog

variable {c : Catalog} {g : Group} {s t : Shape}

/-! ## §2. Members. -/

/-- Whether no two shapes of a catalog have one key. -/
def DistinctKeys (c : Catalog) : Prop := c.shapes.Pairwise fun s t => s.key ≠ t.key

instance (c : Catalog) : Decidable c.DistinctKeys :=
  inferInstanceAs (Decidable (c.shapes.Pairwise fun s t => s.key ≠ t.key))

theorem mem_members : s ∈ c.members g ↔ s ∈ c.shapes ∧ g.contains s.category = true :=
  List.mem_filter

/-- The group of all categories has every shape. -/
theorem members_all (c : Catalog) : c.members .all = c.shapes := by
  unfold members
  rw [List.filter_eq_self]
  intro s _
  exact decide_eq_true (Category.mem_all s.category)

theorem mem_members_ofCategory (hs : s ∈ c.shapes) : s ∈ c.members (Group.ofCategory s.category) :=
  mem_members.2 ⟨hs, Group.contains_ofCategory s.category⟩

theorem DistinctKeys.members (h : c.DistinctKeys) (g : Group) :
    (c.members g).Pairwise fun s t => s.key ≠ t.key :=
  h.filter _

/-- Two shapes of a catalog with one key are the same. -/
theorem DistinctKeys.eq_of_key (h : c.DistinctKeys) (hs : s ∈ c.shapes) (ht : t ∈ c.shapes)
    (hkey : s.key = t.key) : s = t := by
  obtain ⟨i, hi, rfl⟩ := List.getElem_of_mem hs
  obtain ⟨j, hj, rfl⟩ := List.getElem_of_mem ht
  rcases Nat.lt_trichotomy i j with hij | hij | hij
  · exact absurd hkey (List.pairwise_iff_getElem.1 h i j hi hj hij)
  · subst hij
    rfl
  · exact absurd hkey.symm (List.pairwise_iff_getElem.1 h j i hj hi hij)

/-! ## §3. Places. -/

/-- **The place that is found for a shape is the one it has.** -/
theorem place_getElem (h : c.DistinctKeys) {i : Nat} (hi : i < (c.members g).length) :
    c.place g (c.members g)[i].key = i + 1 := by
  have hfound : (c.members g).findIdx? (fun s => s.key == (c.members g)[i].key) = some i := by
    rw [List.findIdx?_eq_some_iff_getElem]
    refine ⟨hi, beq_self_eq_true _, ?_⟩
    intro j hj heq
    -- an earlier shape has another key
    exact List.pairwise_iff_getElem.1 (h.members g) j i (by omega) hi hj (beq_iff_eq.1 heq)
  unfold place
  rw [hfound]
  rfl

/-- Places in a group tell its shapes apart. -/
theorem eq_of_place (h : c.DistinctKeys) (hs : s ∈ c.members g) (ht : t ∈ c.members g)
    (hplace : c.place g s.key = c.place g t.key) : s = t := by
  obtain ⟨i, hi, rfl⟩ := List.getElem_of_mem hs
  obtain ⟨j, hj, rfl⟩ := List.getElem_of_mem ht
  rw [place_getElem h hi, place_getElem h hj] at hplace
  have hij : i = j := by omega
  subst hij
  rfl

/-! ## §4. Stamps. -/

@[simp] theorem stamp_key (c : Catalog) (s : Shape) : (c.stamp s).key = s.key := rfl

@[simp] theorem stamp_category (c : Catalog) (s : Shape) : (c.stamp s).category = s.category := rfl

/-- All shapes, in order, each with a stamp. -/
theorem shapesIn_all (c : Catalog) : c.shapesIn .all = c.shapes.map c.stamp :=
  congrArg (List.map c.stamp) c.members_all

theorem mem_shapesIn_all : t ∈ c.shapesIn .all ↔ ∃ s ∈ c.shapes, c.stamp s = t := by
  rw [shapesIn_all]
  exact List.mem_map

/-- A stamp changes the identifier and the code, and nothing else. -/
theorem shapesIn_all_changes (c : Catalog) :
    List.Forall₂ (fun s t => t.id = some (shapeId s.key) ∧ { t with id := s.id, code := s.code } = s)
      c.shapes (c.shapesIn .all) := by
  rw [shapesIn_all, List.forall₂_map_right_iff, List.forall₂_same]
  intro s _
  exact ⟨rfl, rfl⟩

/-- What is handed out for a group is what is handed out for all, as far as it is in the group. -/
theorem shapesIn_eq_filter (c : Catalog) (g : Group) :
    c.shapesIn g = (c.shapesIn .all).filter fun s => g.contains s.category := by
  rw [shapesIn_all, List.filter_map]
  rfl

/-- The group of a shape in one of the five groups is that group. -/
theorem ofCategory_of_mem (hg : g ∈ Group.concrete) (hs : s ∈ c.members g) :
    Group.ofCategory s.category = g :=
  (Group.eq_ofCategory hg (mem_members.1 hs).2).symm

/-- The codes of a group count its shapes. -/
theorem code_getElem (h : c.DistinctKeys) (hg : g ∈ Group.concrete) {i : Nat}
    (hi : i < (c.shapesIn g).length) : (c.shapesIn g)[i].code = some (shapeCode g (i + 1)) := by
  have hmember : i < (c.members g).length := by
    rwa [shapesIn, List.length_map] at hi
  have hstamp : (c.shapesIn g)[i] = c.stamp (c.members g)[i] := List.getElem_map ..
  rw [hstamp]
  show some (shapeCode (Group.ofCategory _) (c.place (Group.ofCategory _) _)) = _
  rw [ofCategory_of_mem hg (List.getElem_mem hmember), place_getElem h hmember]

/-- Codes tell the shapes of a catalog apart. -/
theorem codes_nodup (h : c.DistinctKeys) : ((c.shapesIn .all).map (·.code)).Nodup := by
  rw [shapesIn_all, List.map_map, List.Nodup, List.pairwise_map]
  apply List.Pairwise.imp_of_mem _ h
  intro s t hs ht hkey hcode
  obtain ⟨hgroup, hplace⟩ := shapeCode_inj (Option.some_inj.1 hcode)
  have hs' := mem_members_ofCategory hs
  have ht' := mem_members_ofCategory ht
  rw [← hgroup] at ht' hplace
  exact hkey (congrArg Shape.key (eq_of_place h hs' ht' hplace))

/-! ## §5. Keys. -/

/-- A key finds the shape that has it. -/
theorem find_eq_ok_iff (h : c.DistinctKeys) (k : String) :
    c.find k = .ok t ↔ t ∈ c.shapesIn .all ∧ t.key = k := by
  rw [mem_shapesIn_all]
  unfold find
  cases hfind : c.shapes.find? fun s => s.key == k with
  | none =>
    have hnone := List.find?_eq_none.1 hfind
    refine iff_of_false nofun ?_
    rintro ⟨⟨s, hs, rfl⟩, hkey⟩
    exact hnone s hs (beq_iff_eq.2 hkey)
  | some s =>
    have hs := List.mem_of_find?_eq_some hfind
    have hkey : s.key = k := by simpa using List.find?_some hfind
    show Except.ok (c.stamp s) = Except.ok t ↔ _
    constructor
    · intro heq
      cases heq
      exact ⟨⟨s, hs, rfl⟩, hkey⟩
    · rintro ⟨⟨s', hs', rfl⟩, hkey'⟩
      rw [h.eq_of_key hs hs' (hkey.trans hkey'.symm)]

/-- A key that no shape has finds nothing. -/
theorem find_eq_error_iff (c : Catalog) (k : String) :
    c.find k = .error (.shapeNotFound k) ↔ ∀ t ∈ c.shapesIn .all, t.key ≠ k := by
  have hkeys : (∀ t ∈ c.shapesIn .all, t.key ≠ k) ↔ ∀ s ∈ c.shapes, ¬ (s.key == k) = true := by
    simp [shapesIn_all]
  rw [hkeys, ← List.find?_eq_none]
  unfold find
  cases c.shapes.find? fun s => s.key == k <;> simp

/-! ## §6. Counts. -/

theorem groups_eq (c : Catalog) :
    c.groups = Group.concrete.map fun g => (g, (c.shapesIn g).length) := by
  unfold groups shapesIn
  simp

/-- Each shape is counted in one of the five groups. -/
theorem sum_groups (c : Catalog) : (c.groups.map (·.2)).sum = c.shapes.length := by
  obtain ⟨shapes⟩ := c
  induction shapes with
  | nil => rfl
  | cons s rest ih =>
    simp only [groups, members, Group.concrete, List.map_cons, List.map_nil, List.sum_cons,
      List.sum_nil, List.filter_cons, List.length_cons] at ih ⊢
    -- the category of the first shape is in one of the groups only
    cases hs : s.category <;>
      simp [Group.contains, Group.categories] at ih ⊢ <;> omega

/-- **What a catalog hands out.**  Where no two shapes have one key: all shapes are handed out in
order, each changed in its identifier and its code only, and no two codes are equal; the codes of one
of the five groups are its letters and the numbers from one on, with at least three digits; a group
is the part of all that belongs to it; a key finds the shape that has it; and the groups are counted
as they are, and make up the catalog. -/
theorem handed_out (h : c.DistinctKeys) :
    List.Forall₂ (fun s t => t.id = some (shapeId s.key) ∧ { t with id := s.id, code := s.code } = s)
        c.shapes (c.shapesIn .all)
      ∧ ((c.shapesIn .all).map (·.code)).Nodup
      ∧ (∀ g ∈ Group.concrete, ∀ i, ∀ hi : i < (c.shapesIn g).length,
        ∃ ds, Text.IsPadded 3 (i + 1) ds
          ∧ (c.shapesIn g)[i].code = some (g.codeLetters ++ "-" ++ String.ofList ds))
      ∧ (∀ g, c.shapesIn g = (c.shapesIn .all).filter fun s => g.contains s.category)
      ∧ (∀ k, (∀ t, c.find k = .ok t ↔ t ∈ c.shapesIn .all ∧ t.key = k)
        ∧ (c.find k = .error (.shapeNotFound k) ↔ ∀ t ∈ c.shapesIn .all, t.key ≠ k))
      ∧ c.groups = (Group.concrete.map fun g => (g, (c.shapesIn g).length))
      ∧ (c.groups.map (·.2)).sum = c.shapes.length := by
  refine ⟨c.shapesIn_all_changes, codes_nodup h, ?_, c.shapesIn_eq_filter, ?_, c.groups_eq,
    c.sum_groups⟩
  · intro g hg i hi
    exact ⟨Text.paddedDigits 3 (i + 1), Text.isPadded_paddedDigits 3 i.succ_ne_zero,
      code_getElem h hg hi⟩
  · intro k
    exact ⟨fun t => find_eq_ok_iff h k, c.find_eq_error_iff k⟩

/-- The shapes of the standard catalog have codes of their own, and its groups make up all nine. -/
theorem standard_handed_out :
    standard.DistinctKeys ∧ ((standard.shapesIn .all).map (·.code)).Nodup
      ∧ (∀ t, standard.find "nozzle" = .ok t ↔ t ∈ standard.shapesIn .all ∧ t.key = "nozzle")
      ∧ (standard.groups.map (·.2)).sum = 9 := by
  have hkeys : standard.DistinctKeys := by decide
  obtain ⟨_, hcodes, _, _, hfind, _, hsum⟩ := handed_out hkeys
  exact ⟨hkeys, hcodes, (hfind "nozzle").1, hsum⟩

example : (standard.find "seamless_pipe").toOption.bind (·.code) = some "TUB-002" := by decide

end Catalog

end ShapeEstimator
