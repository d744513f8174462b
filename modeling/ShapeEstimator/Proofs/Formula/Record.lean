/-
  ShapeEstimator.Proofs.Formula.Record
  ────────────────────────────────
  **FORMULAS AND THEIR RESULTS SURVIVE BEING WRITTEN.**

  Of each record: the numbers that it holds, the law of its JSON, and how many levels of
  lists and objects it has.
-/
import ShapeEstimator.Formula.Record
import ShapeEstimator.Proofs.Json.Record

namespace ShapeEstimator.Formula

open Json (Lawful float_lawful string_lawful bool_lawful strings_lawful bind_ofJson?_ofFields
  bind_ofJson?_object)

/-! ## §1. Definitions. -/

namespace ExpectedRange

/-- The numbers of a range. -/
def numbers (x : ExpectedRange) : List Float := [x.min, x.max]

theorem lawful : Lawful (fun x => AllFinite x.numbers) toJson ofJson? where
  reads x hx := by
    simp only [numbers, allFinite_cons, allFinite_nil, and_true] at hx
    obtain ⟨hmin, hmax⟩ := hx
    refine bind_ofJson?_ofFields rfl (by decide) fun r hr => ?_
    rw [float_lawful.required (hr "min") hmin, float_lawful.required (hr "max") hmax,
      string_lawful.optional (hr "warning") fun _ _ => trivial]
    rfl
  accepts j x h := by
    unfold ofJson? at h
    simp only [↓Json.bind_eq_some, Json.pure_eq_some] at h
    obtain ⟨r, -, min, hmin, max, hmax, _, -, rfl⟩ := h
    simp [numbers, float_lawful.of_required hmin, float_lawful.of_required hmax]
  rejects := rfl

@[simp] theorem fits_toJson (levels : Nat) (x : ExpectedRange) :
    x.toJson.Fits (levels + 1) := by
  simp [toJson]

@[simp] theorem isReadable_toJson (x : ExpectedRange) : x.toJson.isReadable = true := by
  simp [toJson]

end ExpectedRange

namespace Definition

/-- The numbers of a formula. -/
def numbers (f : Definition) : List Float := f.expectedRange.toList.flatMap ExpectedRange.numbers

theorem lawful : Lawful (fun f => AllFinite f.numbers) toJson ofJson? where
  reads f hf := by
    simp only [numbers, allFinite_flatMap, Option.mem_toList] at hf
    refine bind_ofJson?_ofFields rfl (by decide) fun r hr => ?_
    rw [string_lawful.required (hr "expression") trivial,
      strings_lawful.withDefault (hr "variables") trivial,
      string_lawful.required (hr "unit") trivial,
      string_lawful.withDefault (hr "description") trivial,
      bool_lawful.withDefault (hr "requiresDensity") trivial,
      ExpectedRange.lawful.optional (hr "expectedRange") hf]
    rfl
  accepts j f h := by
    unfold ofJson? at h
    simp only [↓Json.bind_eq_some, Json.pure_eq_some] at h
    obtain ⟨r, -, _, -, _, -, _, -, _, -, _, -, range, hrange, rfl⟩ := h
    simpa [numbers] using ExpectedRange.lawful.of_optional hrange
  rejects := rfl

@[simp] theorem fits_toJson (levels : Nat) (f : Definition) : f.toJson.Fits (levels + 2) := by
  simp [toJson, fields]

/-- The fields alone can be read, and so can the fields behind a tag. -/
@[simp] theorem isReadable_fields {f : Definition} :
    ∀ m ∈ f.fields, ∀ j, m.2 = some j → j.isReadable = true := by
  simp [fields]

@[simp] theorem isReadable_toJson (f : Definition) : f.toJson.isReadable = true :=
  Json.isReadable_ofFields.2 isReadable_fields

end Definition

/-! ## §2. Results. -/

namespace RangeWarning

/-- The numbers of a warning. -/
def numbers (w : RangeWarning) : List Float := [w.value, w.min, w.max]

theorem lawful : Lawful (fun w => AllFinite w.numbers) toJson ofJson? where
  reads w hw := by
    simp only [numbers, allFinite_cons, allFinite_nil, and_true] at hw
    obtain ⟨hvalue, hmin, hmax⟩ := hw
    refine bind_ofJson?_object rfl (by decide) fun r hr => ?_
    rw [string_lawful.required (hr "expression") trivial,
      float_lawful.required (hr "value") hvalue, float_lawful.required (hr "min") hmin,
      float_lawful.required (hr "max") hmax, string_lawful.required (hr "message") trivial]
    rfl
  accepts j w h := by
    unfold ofJson? at h
    simp only [↓Json.bind_eq_some, Json.pure_eq_some] at h
    obtain ⟨r, -, _, -, value, hvalue, min, hmin, max, hmax, _, -, rfl⟩ := h
    simp [numbers, float_lawful.of_required hvalue, float_lawful.of_required hmin,
      float_lawful.of_required hmax]
  rejects := rfl

@[simp] theorem fits_toJson (levels : Nat) (w : RangeWarning) : w.toJson.Fits (levels + 1) := by
  simp [toJson]

end RangeWarning

namespace EvaluationResult

/-- The numbers of a result. -/
def numbers (e : EvaluationResult) : List Float :=
  e.result :: (e.boundValues.entries.map (·.2)
    ++ e.rangeWarning.toList.flatMap RangeWarning.numbers)

theorem lawful : Lawful (fun e => AllFinite e.numbers) toJson ofJson? where
  reads e he := by
    simp only [numbers, allFinite_cons, allFinite_append, allFinite_map, allFinite_flatMap,
      Option.mem_toList] at he
    obtain ⟨hresult, hvalues, hwarning⟩ := he
    refine bind_ofJson?_ofFields rfl (by decide) fun r hr => ?_
    rw [float_lawful.required (hr "result") hresult, string_lawful.required (hr "unit") trivial,
      string_lawful.required (hr "expression") trivial,
      float_lawful.map.required (hr "variables") hvalues,
      RangeWarning.lawful.optional (hr "rangeWarning") hwarning]
    rfl
  accepts j e h := by
    unfold ofJson? at h
    simp only [↓Json.bind_eq_some, Json.pure_eq_some] at h
    obtain ⟨r, -, result, hresult, _, -, _, -, values, hvalues, warning, hwarning, rfl⟩ := h
    simp only [numbers, allFinite_cons, allFinite_append, allFinite_map, allFinite_flatMap,
      Option.mem_toList]
    exact ⟨float_lawful.of_required hresult, float_lawful.map.of_required hvalues,
      RangeWarning.lawful.of_optional hwarning⟩
  rejects := rfl

@[simp] theorem fits_toJson (levels : Nat) (e : EvaluationResult) :
    e.toJson.Fits (levels + 2) := by
  simp [toJson]

end EvaluationResult

/-! ## §3. Variable checks. -/

namespace VariableCheck

theorem lawful : Lawful (fun _ => True) toJson ofJson? where
  reads c _ := by
    refine bind_ofJson?_object rfl (by decide) fun r hr => ?_
    rw [strings_lawful.required (hr "undeclared") trivial,
      strings_lawful.required (hr "unused") trivial]
    rfl
  accepts _ _ _ := trivial
  rejects := rfl

@[simp] theorem fits_toJson (levels : Nat) (c : VariableCheck) : c.toJson.Fits (levels + 2) := by
  simp [toJson]

end VariableCheck

end ShapeEstimator.Formula
