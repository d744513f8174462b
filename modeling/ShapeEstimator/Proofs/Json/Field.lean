/-
  ShapeEstimator.Proofs.Json.Field
  ────────────────────────────────
  **ONE FIELD OF A RECORD IS GIVEN ANOTHER VALUE.**

  A record is an object or a list of its fields.  In an object a field is changed where it stands,
  or comes at the end if it is absent; in a list it is changed at its place.  The other fields
  stay what they are:

      (setField name value j) . n  =  if n = name then value else j . n
-/
import Mathlib.Data.List.Basic
import ShapeEstimator.Proofs.Json.Record

namespace ShapeEstimator.Json

/-! ## §1. Members of an object. -/

/-- The members with a value for a name: in place of the first value it has, or at the end. -/
def setMember (name : String) (value : Json) : List (String × Json) → List (String × Json)
  | [] => [(name, value)]
  | (n, j) :: rest =>
    if n = name then (n, value) :: rest else (n, j) :: setMember name value rest

section Members

variable {name : String} {value : Json} {names : List String}

theorem setMember_cons (n : String) (j : Json) (rest : List (String × Json)) :
    setMember name value ((n, j) :: rest)
      = if n = name then (n, value) :: rest else (n, j) :: setMember name value rest := rfl

theorem lookup_setMember (ms : List (String × Json)) (n : String) :
    (setMember name value ms).lookup n = if n = name then some value else ms.lookup n := by
  induction ms with
  | nil => rw [setMember, NameMap.lookup_cons_ite]
  | cons m rest ih =>
    obtain ⟨k, j⟩ := m
    rw [setMember_cons]
    by_cases hk : k = name
    · rw [if_pos hk, NameMap.lookup_cons_ite, NameMap.lookup_cons_ite, hk]
      split <;> rfl
    · rw [if_neg hk, NameMap.lookup_cons_ite, NameMap.lookup_cons_ite, ih]
      exact ite_ite_comm _ _ _ _ fun hn => hn ▸ hk

theorem mem_names_setMember {ms : List (String × Json)} {n : String} :
    n ∈ (setMember name value ms).map (·.1) ↔ n = name ∨ n ∈ ms.map (·.1) := by
  induction ms with
  | nil => simp [setMember]
  | cons m rest ih =>
    obtain ⟨k, j⟩ := m
    rw [setMember_cons]
    by_cases hk : k = name
    · simp [hk]
    · rw [if_neg hk, List.map_cons, List.map_cons, List.mem_cons, List.mem_cons, ih]
      exact or_left_comm

/-- No name comes twice because of a value. -/
theorem nodup_setMember {ms : List (String × Json)} (h : (ms.map (·.1)).Nodup) :
    ((setMember name value ms).map (·.1)).Nodup := by
  induction ms with
  | nil => exact List.nodup_cons.2 ⟨List.not_mem_nil, List.nodup_nil⟩
  | cons m rest ih =>
    obtain ⟨k, j⟩ := m
    obtain ⟨hnot, hrest⟩ := List.nodup_cons.1 h
    rw [setMember_cons]
    by_cases hk : k = name
    · rw [if_pos hk]
      exact h
    · rw [if_neg hk]
      refine List.nodup_cons.2 ⟨fun hmem => ?_, ih hrest⟩
      exact (mem_names_setMember.1 hmem).elim hk hnot

/-- Members with other names do not count. -/
theorem filter_setMember (hname : name ∈ names) (ms : List (String × Json)) :
    (setMember name value ms).filter (fun m => decide (m.1 ∈ names))
      = setMember name value (ms.filter fun m => decide (m.1 ∈ names)) := by
  induction ms with
  | nil => simp [setMember, hname]
  | cons m rest ih =>
    obtain ⟨k, j⟩ := m
    rw [setMember_cons]
    by_cases hk : k = name
    · simp [setMember_cons, hk, hname]
    · by_cases hmem : k ∈ names
      · simp [setMember_cons, hk, hmem, ih]
      · simp [hk, hmem, ih]

end Members

/-! ## §2. Fields of a record. -/

/-- The value of a field of a record. -/
def field? (names : List String) (name : String) (j : Json) : Option Json :=
  (Record.ofJson? names j).bind fun r => r.fields.lookup name

/-- The record with another value for a field, if a list goes as far as the field. -/
def setField (names : List String) (name : String) (value : Json) : Json → Json
  | .object members => .object (setMember name value members)
  | .array items => .array (items.set (names.idxOf name) value)
  | j => j

/-- A list goes as far as a field; an object always has room for it. -/
def HasRoom (names : List String) (name : String) : Json → Prop
  | .array items => names.idxOf name < items.length
  | _ => True

section Fields

variable {names : List String} {name : String} {value j : Json} {r : Record}

theorem lookup_zip_set {items : List Json} (hname : name ∈ names)
    (hroom : names.idxOf name < items.length) (n : String) :
    (names.zip (items.set (names.idxOf name) value)).lookup n
      = if n = name then some value else (names.zip items).lookup n := by
  induction names generalizing items with
  | nil => exact absurd hname List.not_mem_nil
  | cons k rest ih =>
    cases items with
    | nil => exact absurd hroom (Nat.not_lt_zero _)
    | cons i items =>
      by_cases hk : k = name
      · subst hk
        rw [List.idxOf_cons_self, List.set_cons_zero, List.zip_cons_cons, List.zip_cons_cons,
          NameMap.lookup_cons_ite, NameMap.lookup_cons_ite]
        split <;> rfl
      · rw [List.idxOf_cons_ne rest hk] at hroom ⊢
        have hrest : name ∈ rest := (List.mem_cons.1 hname).resolve_left fun heq => hk heq.symm
        rw [List.set_cons_succ, List.zip_cons_cons, List.zip_cons_cons, NameMap.lookup_cons_ite,
          NameMap.lookup_cons_ite, ih hrest (Nat.lt_of_succ_lt_succ hroom)]
        exact ite_ite_comm _ _ _ _ fun hn => hn ▸ hk

/-- A list goes as far as each field that it gives. -/
theorem lt_of_lookup_zip {items : List Json} (h : (names.zip items).lookup name = some value) :
    names.idxOf name < items.length := by
  induction names generalizing items with
  | nil => exact nomatch h
  | cons k rest ih =>
    cases items with
    | nil => exact nomatch h
    | cons i items =>
      rw [List.zip_cons_cons, NameMap.lookup_cons_ite] at h
      by_cases hk : name = k
      · rw [hk, List.idxOf_cons_self]
        exact Nat.succ_pos _
      · rw [if_neg hk] at h
        rw [List.idxOf_cons_ne rest fun heq => hk heq.symm]
        exact Nat.succ_lt_succ (ih h)

/-- There is room for each field that is given. -/
theorem hasRoom_of_lookup (h : Record.ofJson? names j = some r)
    (hr : r.fields.lookup name = some value) : HasRoom names name j := by
  cases j with
  | array items =>
    unfold Record.ofJson? Record.ofItems? at h
    dsimp only at h
    split at h
    · cases h
      exact lt_of_lookup_zip hr
    · exact nomatch h
  | _ => trivial

/-- **The fields of a record after one of them was changed.** -/
theorem ofJson?_setField (value : Json) (h : Record.ofJson? names j = some r) (hname : name ∈ names)
    (hroom : HasRoom names name j) :
    ∃ r', Record.ofJson? names (setField names name value j) = some r'
      ∧ ∀ n, r'.fields.lookup n = if n = name then some value else r.fields.lookup n := by
  cases j with
  | object members =>
    unfold Record.ofJson? Record.ofMembers? at h
    dsimp only at h
    split at h
    · rename_i hnodup
      cases h
      refine ⟨⟨setMember name value _⟩, ?_, lookup_setMember _⟩
      show Record.ofMembers? names (setMember name value members) = _
      unfold Record.ofMembers?
      dsimp only
      rw [filter_setMember hname, if_pos (nodup_setMember hnodup)]
    · exact nomatch h
  | array items =>
    unfold Record.ofJson? Record.ofItems? at h
    dsimp only at h
    split at h
    · rename_i hlength
      cases h
      refine ⟨⟨names.zip (items.set (names.idxOf name) value)⟩, ?_, lookup_zip_set hname hroom⟩
      show Record.ofItems? names (items.set (names.idxOf name) value) = _
      unfold Record.ofItems?
      rw [List.length_set, if_pos hlength]
    · exact nomatch h
  | _ => exact nomatch h

/-! ## §3. Fields that stay. -/

variable {α : Type} {r' : Record} {decode : Json → Option α}

theorem required_congr (h : r'.fields.lookup name = r.fields.lookup name) :
    r'.required name decode = r.required name decode := by
  unfold Record.required
  rw [h]

theorem withDefault_congr {default : α} (h : r'.fields.lookup name = r.fields.lookup name) :
    r'.withDefault name default decode = r.withDefault name default decode := by
  unfold Record.withDefault
  rw [h]

theorem optional_congr (h : r'.fields.lookup name = r.fields.lookup name) :
    r'.optional name decode = r.optional name decode := by
  unfold Record.optional
  rw [h]

/-! ## §4. Depth. -/

theorem fits_setMember {levels : Nat} {ms : List (String × Json)} (hvalue : value.Fits levels)
    (h : ∀ m ∈ ms, m.2.Fits levels) : ∀ m ∈ setMember name value ms, m.2.Fits levels := by
  induction ms with
  | nil => simpa [setMember] using hvalue
  | cons m rest ih =>
    obtain ⟨k, j⟩ := m
    obtain ⟨hj, hrest⟩ := List.forall_mem_cons.1 h
    rw [setMember_cons]
    split
    · exact List.forall_mem_cons.2 ⟨hvalue, hrest⟩
    · exact List.forall_mem_cons.2 ⟨hj, ih hrest⟩

/-- A record with another value for a field is as deep as the record and the value are. -/
theorem fits_setField {levels : Nat} (hvalue : value.Fits levels) (h : j.Fits (levels + 1)) :
    (setField names name value j).Fits (levels + 1) := by
  cases j with
  | object members => exact fits_object.2 (fits_setMember hvalue (fits_object.1 h))
  | array items =>
    refine fits_array.2 fun i hi => ?_
    rcases List.mem_or_eq_of_mem_set hi with hi | rfl
    · exact fits_array.1 h i hi
    · exact hvalue
  | _ => exact h

end Fields

end ShapeEstimator.Json
