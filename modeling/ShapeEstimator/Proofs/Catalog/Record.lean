/-
  ShapeEstimator.Proofs.Catalog.Record
  ────────────────────────────────
  **SHAPES AND MATERIALS SURVIVE BEING WRITTEN.**

  Of each record: the numbers that it holds, the law of its JSON, and how many levels of
  lists and objects it has.  A record with a kind is read by splitting off the kind, which
  needs all of it to be readable.
-/
import ShapeEstimator.Catalog.Record
import ShapeEstimator.Proofs.Formula.Record

namespace ShapeEstimator

open Json (Lawful float_lawful string_lawful bool_lawful strings_lawful bind_ofJson?_ofFields
  bind_ofJson?_object splitTag?_ofFields splitTag?_object TagForm)

/-! ## §1. Enumerations. -/

theorem Category.lawful : Lawful (fun _ => True) toJson ofJson? :=
  Json.choice_lawful fun c => by cases c <;> rfl

theorem MaterialCategory.lawful : Lawful (fun _ => True) toJson ofJson? :=
  Json.choice_lawful fun c => by cases c <;> rfl

theorem Group.lawful : Lawful (fun _ => True) toJson ofJson? :=
  Json.choice_lawful fun g => by cases g <;> rfl

theorem BlankShape.lawful : Lawful (fun _ => True) toJson ofJson? :=
  Json.choice_lawful fun b => by cases b <;> rfl

theorem BlankShape.tagged_lawful : Lawful (fun _ => True) toJson (Json.taggedChoice? names) :=
  Json.taggedChoice_lawful fun b => by cases b <;> rfl

@[simp] theorem Category.fits_toJson (levels : Nat) (c : Category) : c.toJson.Fits levels :=
  Json.fits_string levels c.name

@[simp] theorem MaterialCategory.fits_toJson (levels : Nat) (c : MaterialCategory) :
    c.toJson.Fits levels := Json.fits_string levels c.name

@[simp] theorem Group.fits_toJson (levels : Nat) (g : Group) : g.toJson.Fits levels :=
  Json.fits_string levels g.name

@[simp] theorem BlankShape.fits_toJson (levels : Nat) (b : BlankShape) : b.toJson.Fits levels :=
  Json.fits_string levels b.name

@[simp] theorem Category.isReadable_toJson (c : Category) : c.toJson.isReadable = true := rfl

@[simp] theorem MaterialCategory.isReadable_toJson (c : MaterialCategory) :
    c.toJson.isReadable = true := rfl

@[simp] theorem BlankShape.isReadable_toJson (b : BlankShape) : b.toJson.isReadable = true := rfl

/-! ## §2. Identifiers. -/

namespace Identifier

theorem hexValue?_digitChar : ∀ d < 16, Json.hexValue? (Nat.digitChar d) = some d := by decide

/-- The last digits of a number stand for what they hold of it. -/
theorem foldl_hexDigits (width n : Nat) :
    ((List.range width).map fun i => n / 16 ^ (width - 1 - i) % 16).foldl (fun n v => 16 * n + v) 0
      = n % 16 ^ width := by
  induction width generalizing n with
  | zero => exact (Nat.mod_one n).symm
  | succ w ih =>
    -- all digits but the last are those of a sixteenth
    have hfront : (List.range w).map (fun i => n / 16 ^ (w + 1 - 1 - i) % 16)
        = (List.range w).map fun i => n / 16 / 16 ^ (w - 1 - i) % 16 := by
      apply List.map_congr_left
      intro i hi
      have hi : i < w := List.mem_range.1 hi
      rw [Nat.div_div_eq_div_mul, ← Nat.pow_succ', show w + 1 - 1 - i = w - 1 - i + 1 by omega]
    rw [List.range_succ, List.map_append, List.foldl_append, hfront, ih]
    show 16 * (n / 16 % 16 ^ w) + n / 16 ^ (w + 1 - 1 - w) % 16 = _
    rw [show w + 1 - 1 - w = 0 by omega, Nat.pow_zero, Nat.div_one, Nat.pow_succ', Nat.mod_mul]
    omega

theorem ofHex?_hexDigits (x : Identifier) : ofHex? (hexDigits 32 x.value) = some x := by
  have hdigits : hexDigits 32 x.value
      = ((List.range 32).map fun i => x.value / 16 ^ (32 - 1 - i) % 16).map Nat.digitChar := by
    rw [List.map_map]
    rfl
  have hvalues : (hexDigits 32 x.value).mapM Json.hexValue?
      = some ((List.range 32).map fun i => x.value / 16 ^ (32 - 1 - i) % 16) := by
    rw [hdigits]
    apply Json.mapM_eq_some_of_map
    intro d hd
    obtain ⟨i, _, rfl⟩ := List.mem_map.1 hd
    exact hexValue?_digitChar _ (Nat.mod_lt _ (by decide))
  have hvalue : x.value % 16 ^ 32 % 2 ^ 128 = x.value := by
    have := x.value_lt
    omega
  unfold ofHex?
  rw [hvalues, Option.map_some, foldl_hexDigits]
  obtain ⟨v, hv⟩ := x
  unfold ofNat
  simp only [hvalue]

theorem withoutHyphens?_hyphenated {ds : List Char} (h : ds.length = 32) :
    withoutHyphens? (hyphenated ds) = some ds := by
  have hnext : ∀ k, (ds.drop k).take 4 ++ ds.drop (k + 4) = ds.drop k := by
    intro k
    rw [← List.drop_drop, List.take_append_drop]
  have hblocks : (hyphenated ds).take 8 ++ ((hyphenated ds).drop 9).take 4
      ++ ((hyphenated ds).drop 14).take 4 ++ ((hyphenated ds).drop 19).take 4
      ++ (hyphenated ds).drop 24
      = ds.take 8 ++ ((ds.drop 8).take 4 ++ ((ds.drop 12).take 4 ++ ((ds.drop 16).take 4
        ++ ds.drop 20))) := by
    simp [hyphenated, List.drop_append, List.drop_take, h]
  unfold withoutHyphens?
  dsimp only
  rw [hblocks, hnext 16, hnext 12, hnext 8, List.take_append_drop, if_pos rfl]

/-- An identifier that is written is read back. -/
theorem ofText?_text (x : Identifier) : ofText? x.text = some x := by
  have hdigits : (hexDigits 32 x.value).length = 32 := by
    unfold hexDigits
    rw [List.length_map, List.length_range]
  have hlength : (hyphenated (hexDigits 32 x.value)).length = 36 := by
    simp [hyphenated, hdigits]
  unfold ofText? text
  simp only [String.toList_ofList, hlength, withoutHyphens?_hyphenated hdigits]
  exact ofHex?_hexDigits x

theorem lawful : Lawful (fun _ => True) toJson ofJson? where
  reads x _ := by
    rw [ofJson?, toJson, Json.string?, Option.bind_some]
    exact ofText?_text x
  accepts _ _ _ := trivial
  rejects := rfl

@[simp] theorem fits_toJson (levels : Nat) (x : Identifier) : x.toJson.Fits levels :=
  Json.fits_string levels x.text

@[simp] theorem isReadable_toJson (x : Identifier) : x.toJson.isReadable = true := rfl

end Identifier

/-! ## §3. Materials. -/

namespace Price

/-- The numbers of a price. -/
def numbers (p : Price) : List Float := [p.amount]

theorem lawful : Lawful (fun p => AllFinite p.numbers) toJson ofJson? where
  reads p hp := by
    simp only [numbers, allFinite_cons, allFinite_nil, and_true] at hp
    refine bind_ofJson?_object rfl (by decide) fun r hr => ?_
    rw [float_lawful.required (hr "amount") hp, string_lawful.required (hr "currency") trivial,
      string_lawful.withDefault (hr "unit") trivial]
    rfl
  accepts j p h := by
    unfold ofJson? at h
    simp only [↓Json.bind_eq_some, Json.pure_eq_some] at h
    obtain ⟨r, -, amount, hamount, _, -, _, -, rfl⟩ := h
    simp [numbers, float_lawful.of_required hamount]
  rejects := rfl

@[simp] theorem fits_toJson (levels : Nat) (p : Price) : p.toJson.Fits (levels + 1) := by
  simp [toJson]

end Price

namespace Material

/-- The numbers of a material. -/
def numbers (m : Material) : List Float :=
  m.density.toList ++ m.currentPrice.toList.flatMap Price.numbers

theorem lawful : Lawful (fun m => AllFinite m.numbers) toJson ofJson? where
  reads m hm := by
    simp only [numbers, allFinite_append, allFinite_toList, allFinite_flatMap,
      Option.mem_toList] at hm
    obtain ⟨hdensity, hprice⟩ := hm
    refine bind_ofJson?_ofFields rfl (by decide) fun r hr => ?_
    rw [string_lawful.required (hr "id") trivial, string_lawful.required (hr "name") trivial,
      MaterialCategory.lawful.required (hr "category") trivial,
      float_lawful.optional (hr "density") hdensity,
      Price.lawful.optional (hr "currentPrice") hprice]
    rfl
  accepts j m h := by
    unfold ofJson? at h
    simp only [↓Json.bind_eq_some, Json.pure_eq_some] at h
    obtain ⟨r, -, _, -, _, -, _, -, density, hdensity, price, hprice, rfl⟩ := h
    simp only [numbers, allFinite_append, allFinite_toList, allFinite_flatMap, Option.mem_toList]
    exact ⟨float_lawful.of_optional hdensity, Price.lawful.of_optional hprice⟩
  rejects := rfl

@[simp] theorem fits_toJson (levels : Nat) (m : Material) : m.toJson.Fits (levels + 2) := by
  simp [toJson]

end Material

/-! ## §4. Parameters. -/

namespace ParameterOption

/-- The numbers of an option. -/
def numbers (o : ParameterOption) : List Float := [o.value]

theorem lawful : Lawful (fun o => AllFinite o.numbers) toJson ofJson? where
  reads o ho := by
    simp only [numbers, allFinite_cons, allFinite_nil, and_true] at ho
    refine bind_ofJson?_object rfl (by decide) fun r hr => ?_
    rw [string_lawful.required (hr "label") trivial, float_lawful.required (hr "value") ho]
    rfl
  accepts j o h := by
    unfold ofJson? at h
    simp only [↓Json.bind_eq_some, Json.pure_eq_some] at h
    obtain ⟨r, -, _, -, value, hvalue, rfl⟩ := h
    simp [numbers, float_lawful.of_required hvalue]
  rejects := rfl

@[simp] theorem fits_toJson (levels : Nat) (o : ParameterOption) : o.toJson.Fits (levels + 1) := by
  simp [toJson]

@[simp] theorem isReadable_toJson (o : ParameterOption) : o.toJson.isReadable = true := by
  simp [toJson]

end ParameterOption

namespace ParameterDomain

/-- The numbers of a domain. -/
def numbers : ParameterDomain → List Float
  | .numeric min max default => min.toList ++ (max.toList ++ default.toList)
  | .enumerated options default => options.flatMap ParameterOption.numbers ++ default.toList

theorem isReadable_toJson (d : ParameterDomain) : d.toJson.isReadable = true := by
  cases d <;> simp [toJson]

theorem lawfulWith (tags : TagForm) :
    Lawful (fun d => AllFinite d.numbers) toJson (ofJsonWith? tags) where
  reads d hd := by
    have hread := isReadable_toJson d
    unfold ofJsonWith?
    cases d with
    | numeric min max default =>
      simp only [numbers, allFinite_append, allFinite_toList] at hd
      obtain ⟨hmin, hmax, hdefault⟩ := hd
      rw [toJson, splitTag?_ofFields (by simp) hread]
      simp only [Json.name?_string, Option.bind_eq_bind, Option.bind_some]
      refine bind_ofJson?_ofFields rfl (by decide) fun r hr => ?_
      rw [float_lawful.optional (hr "min") hmin, float_lawful.optional (hr "max") hmax,
        float_lawful.optional (hr "default") hdefault]
      rfl
    | enumerated options default =>
      simp only [numbers, allFinite_append, allFinite_toList, allFinite_flatMap] at hd
      obtain ⟨hoptions, hdefault⟩ := hd
      rw [toJson, splitTag?_ofFields (by simp) hread]
      simp only [Json.name?_string, Option.bind_eq_bind, Option.bind_some]
      refine bind_ofJson?_ofFields rfl (by decide) fun r hr => ?_
      rw [ParameterOption.lawful.list.required (hr "options") hoptions,
        float_lawful.optional (hr "default") hdefault]
      rfl
  accepts j d h := by
    unfold ofJsonWith? at h
    simp only [↓Json.bind_eq_some] at h
    obtain ⟨⟨tag, body⟩, -, kind, -, h⟩ := h
    split at h
    · simp only [↓Json.bind_eq_some, Json.pure_eq_some] at h
      obtain ⟨r, -, min, hmin, max, hmax, default, hdefault, rfl⟩ := h
      simp only [numbers, allFinite_append, allFinite_toList]
      exact ⟨float_lawful.of_optional hmin, float_lawful.of_optional hmax,
        float_lawful.of_optional hdefault⟩
    · simp only [↓Json.bind_eq_some, Json.pure_eq_some] at h
      obtain ⟨r, -, options, hoptions, default, hdefault, rfl⟩ := h
      simp only [numbers, allFinite_append, allFinite_toList, allFinite_flatMap]
      exact ⟨ParameterOption.lawful.list.of_required hoptions, float_lawful.of_optional hdefault⟩
    · cases h
  rejects := rfl

theorem lawful : Lawful (fun d => AllFinite d.numbers) toJson ofJson? := lawfulWith .name

@[simp] theorem fits_toJson (levels : Nat) (d : ParameterDomain) :
    d.toJson.Fits (levels + 3) := by
  cases d <;> simp [toJson]

end ParameterDomain

namespace Parameter

/-- The numbers of a parameter. -/
def numbers (p : Parameter) : List Float := p.domain.numbers

theorem lawfulWith (tags : TagForm) :
    Lawful (fun p => AllFinite p.numbers) toJson (ofJsonWith? tags) where
  reads p hp := by
    refine bind_ofJson?_object rfl (by decide) fun r hr => ?_
    rw [string_lawful.required (hr "name") trivial, string_lawful.required (hr "label") trivial,
      string_lawful.required (hr "unit") trivial,
      (ParameterDomain.lawfulWith tags).required (hr "domain") hp,
      bool_lawful.withDefault (hr "required") trivial,
      strings_lawful.withDefault (hr "usedInFormulas") trivial]
    rfl
  accepts j p h := by
    unfold ofJsonWith? at h
    simp only [↓Json.bind_eq_some, Json.pure_eq_some] at h
    obtain ⟨r, -, _, -, _, -, _, -, domain, hdomain, _, -, _, -, rfl⟩ := h
    exact (ParameterDomain.lawfulWith tags).of_required hdomain
  rejects := rfl

theorem lawful : Lawful (fun p => AllFinite p.numbers) toJson ofJson? := lawfulWith .name

@[simp] theorem fits_toJson (levels : Nat) (p : Parameter) : p.toJson.Fits (levels + 4) := by
  simp [toJson]

@[simp] theorem isReadable_toJson (p : Parameter) : p.toJson.isReadable = true := by
  simp [toJson, ParameterDomain.isReadable_toJson]

end Parameter

namespace ParameterIssue

/-- The numbers of a finding. -/
def numbers : ParameterIssue → List Float
  | .missingRequired _ => []
  | .belowMinimum _ value min => [value, min]
  | .aboveMaximum _ value max => [value, max]
  | .notAnOption _ value => [value]

theorem isReadable_toJson (i : ParameterIssue) : i.toJson.isReadable = true := by
  cases i <;> simp [toJson, fields]

theorem lawful : Lawful (fun i => AllFinite i.numbers) toJson ofJson? where
  reads i hi := by
    have hread := isReadable_toJson i
    unfold ofJson?
    cases i with
    | missingRequired name =>
      rw [toJson, fields, splitTag?_object (by simp) hread]
      simp only [Option.bind_eq_bind, Option.bind_some]
      refine bind_ofJson?_object rfl (by decide) fun r hr => ?_
      rw [string_lawful.required (hr "name") trivial]
      rfl
    | belowMinimum name value min =>
      simp only [numbers, allFinite_cons, allFinite_nil, and_true] at hi
      obtain ⟨hvalue, hmin⟩ := hi
      rw [toJson, fields, splitTag?_object (by simp) hread]
      simp only [Option.bind_eq_bind, Option.bind_some]
      refine bind_ofJson?_object rfl (by decide) fun r hr => ?_
      rw [string_lawful.required (hr "name") trivial, float_lawful.required (hr "value") hvalue,
        float_lawful.required (hr "min") hmin]
      rfl
    | aboveMaximum name value max =>
      simp only [numbers, allFinite_cons, allFinite_nil, and_true] at hi
      obtain ⟨hvalue, hmax⟩ := hi
      rw [toJson, fields, splitTag?_object (by simp) hread]
      simp only [Option.bind_eq_bind, Option.bind_some]
      refine bind_ofJson?_object rfl (by decide) fun r hr => ?_
      rw [string_lawful.required (hr "name") trivial, float_lawful.required (hr "value") hvalue,
        float_lawful.required (hr "max") hmax]
      rfl
    | notAnOption name value =>
      simp only [numbers, allFinite_cons, allFinite_nil, and_true] at hi
      rw [toJson, fields, splitTag?_object (by simp) hread]
      simp only [Option.bind_eq_bind, Option.bind_some]
      refine bind_ofJson?_object rfl (by decide) fun r hr => ?_
      rw [string_lawful.required (hr "name") trivial, float_lawful.required (hr "value") hi]
      rfl
  accepts j i h := by
    unfold ofJson? at h
    simp only [↓Json.bind_eq_some] at h
    obtain ⟨⟨tag, body⟩, -, h⟩ := h
    split at h
    · simp only [↓Json.bind_eq_some, Json.pure_eq_some] at h
      obtain ⟨r, -, _, -, rfl⟩ := h
      exact allFinite_nil
    · simp only [↓Json.bind_eq_some, Json.pure_eq_some] at h
      obtain ⟨r, -, _, -, value, hvalue, min, hmin, rfl⟩ := h
      simp [numbers, float_lawful.of_required hvalue, float_lawful.of_required hmin]
    · simp only [↓Json.bind_eq_some, Json.pure_eq_some] at h
      obtain ⟨r, -, _, -, value, hvalue, max, hmax, rfl⟩ := h
      simp [numbers, float_lawful.of_required hvalue, float_lawful.of_required hmax]
    · simp only [↓Json.bind_eq_some, Json.pure_eq_some] at h
      obtain ⟨r, -, _, -, value, hvalue, rfl⟩ := h
      simp [numbers, float_lawful.of_required hvalue]
    · cases h
  rejects := rfl

@[simp] theorem fits_toJson (levels : Nat) (i : ParameterIssue) : i.toJson.Fits (levels + 1) := by
  cases i <;> simp [toJson, fields]

end ParameterIssue

/-! ## §5. Entries. -/

namespace BlankSpec

/-- The numbers of a blank. -/
def numbers (s : BlankSpec) : List Float :=
  s.dimensions.entries.flatMap fun e => e.2.numbers

theorem lawfulBy {outline : Json → Option BlankShape}
    (law : Lawful (fun _ => True) BlankShape.toJson outline) :
    Lawful (fun s => AllFinite s.numbers) toJson (ofJsonBy? outline) where
  reads s hs := by
    simp only [numbers, allFinite_flatMap] at hs
    refine bind_ofJson?_object rfl (by decide) fun r hr => ?_
    rw [law.required (hr "blankShape") trivial,
      Formula.Definition.lawful.map.required (hr "dimensions") hs,
      string_lawful.withDefault (hr "description") trivial]
    rfl
  accepts j s h := by
    unfold ofJsonBy? at h
    simp only [↓Json.bind_eq_some, Json.pure_eq_some] at h
    obtain ⟨r, -, _, -, dimensions, hdimensions, _, -, rfl⟩ := h
    simp only [numbers, allFinite_flatMap]
    exact Formula.Definition.lawful.map.of_required hdimensions
  rejects := rfl

theorem lawful : Lawful (fun s => AllFinite s.numbers) toJson ofJson? :=
  lawfulBy BlankShape.lawful

@[simp] theorem fits_toJson (levels : Nat) (s : BlankSpec) : s.toJson.Fits (levels + 4) := by
  simp [toJson, fields]

end BlankSpec

namespace NamedFormula

/-- The numbers of a formula with its name. -/
def numbers (n : NamedFormula) : List Float := n.formula.numbers

theorem lawful : Lawful (fun n => AllFinite n.numbers) toJson ofJson? where
  reads n hn := by
    refine bind_ofJson?_object rfl (by decide) fun r hr => ?_
    rw [string_lawful.required (hr "name") trivial,
      Formula.Definition.lawful.required (hr "formula") hn]
    rfl
  accepts j n h := by
    unfold ofJson? at h
    simp only [↓Json.bind_eq_some, Json.pure_eq_some] at h
    obtain ⟨r, -, _, -, formula, hformula, rfl⟩ := h
    exact Formula.Definition.lawful.of_required hformula
  rejects := rfl

@[simp] theorem fits_toJson (levels : Nat) (n : NamedFormula) : n.toJson.Fits (levels + 3) := by
  simp [toJson]

@[simp] theorem isReadable_toJson (n : NamedFormula) : n.toJson.isReadable = true := by
  simp [toJson]

end NamedFormula

namespace FormulaEntry

/-- The numbers of an entry. -/
def numbers : FormulaEntry → List Float
  | .formula f => f.numbers
  | .blankDimensions spec => spec.numbers
  | .customFormulas formulas => formulas.flatMap NamedFormula.numbers

theorem isReadable_toJson (e : FormulaEntry) : e.toJson.isReadable = true := by
  cases e with
  | formula f => simp [toJson, Formula.Definition.fields]
  | blankDimensions spec => simp [toJson, BlankSpec.fields]
  | customFormulas formulas => simp [toJson]

theorem lawfulWith (tags : TagForm) :
    Lawful (fun e => AllFinite e.numbers) toJson (ofJsonWith? tags) where
  reads e he := by
    have hread := isReadable_toJson e
    unfold ofJsonWith?
    cases e with
    | formula f =>
      rw [toJson, splitTag?_ofFields (by simp [Formula.Definition.fields]) hread]
      simp only [Json.name?_string, Option.bind_eq_bind, Option.bind_some]
      exact Option.bind_eq_some_iff.2 ⟨f, Formula.Definition.lawful.reads f he, rfl⟩
    | blankDimensions spec =>
      rw [toJson, splitTag?_object (by simp [BlankSpec.fields]) hread]
      simp only [Json.name?_string, Option.bind_eq_bind, Option.bind_some]
      have hspec := (BlankSpec.lawfulBy BlankShape.tagged_lawful).reads spec he
      exact Option.bind_eq_some_iff.2 ⟨spec, hspec, rfl⟩
    | customFormulas formulas =>
      simp only [numbers, allFinite_flatMap] at he
      rw [toJson, splitTag?_object (by simp) hread]
      simp only [Json.name?_string, Option.bind_eq_bind, Option.bind_some]
      refine bind_ofJson?_object rfl (by decide) fun r hr => ?_
      rw [NamedFormula.lawful.list.required (hr "formulas") he]
      rfl
  accepts j e h := by
    unfold ofJsonWith? at h
    simp only [↓Json.bind_eq_some] at h
    obtain ⟨⟨tag, body⟩, -, kind, -, h⟩ := h
    split at h
    · simp only [↓Json.bind_eq_some, Json.pure_eq_some] at h
      obtain ⟨f, hf, rfl⟩ := h
      exact Formula.Definition.lawful.accepts body f hf
    · simp only [↓Json.bind_eq_some, Json.pure_eq_some] at h
      obtain ⟨spec, hspec, rfl⟩ := h
      exact (BlankSpec.lawfulBy BlankShape.tagged_lawful).accepts body spec hspec
    · simp only [↓Json.bind_eq_some, Json.pure_eq_some] at h
      obtain ⟨r, -, formulas, hformulas, rfl⟩ := h
      simp only [numbers, allFinite_flatMap]
      exact NamedFormula.lawful.list.of_required hformulas
    · cases h
  rejects := rfl

theorem lawful : Lawful (fun e => AllFinite e.numbers) toJson ofJson? := lawfulWith .name

@[simp] theorem fits_toJson (levels : Nat) (e : FormulaEntry) : e.toJson.Fits (levels + 5) := by
  cases e with
  | formula f => simp [toJson, Formula.Definition.fields]
  | blankDimensions spec => simp [toJson, BlankSpec.fields]
  | customFormulas formulas => simp [toJson]

end FormulaEntry

/-! ## §6. Rates and rules. -/

namespace RateOverrides

/-- The numbers of rates. -/
def numbers (o : RateOverrides) : List Float :=
  o.cuttingPerMeter.toList ++ (o.edgePreparationPerMeter.toList ++ (o.weldingPerMeter.toList
    ++ (o.surfaceTreatmentPerSqm.toList ++ (o.baseCost.toList ++ (o.costPerKg.toList
      ++ (o.laborHours.toList ++ o.laborRatePerHour.toList))))))

theorem lawful : Lawful (fun o => AllFinite o.numbers) toJson ofJson? where
  reads o ho := by
    simp only [numbers, allFinite_append, allFinite_toList] at ho
    obtain ⟨hcutting, hedge, hwelding, hsurface, hbase, hkg, hhours, hrate⟩ := ho
    refine bind_ofJson?_ofFields rfl (by decide) fun r hr => ?_
    rw [float_lawful.optional (hr "cuttingCostPerMeter") hcutting,
      float_lawful.optional (hr "edgePreparationCostPerMeter") hedge,
      float_lawful.optional (hr "weldingCostPerMeter") hwelding,
      float_lawful.optional (hr "surfaceTreatmentCostPerSqm") hsurface,
      float_lawful.optional (hr "baseCost") hbase, float_lawful.optional (hr "costPerKg") hkg,
      float_lawful.optional (hr "laborHours") hhours,
      float_lawful.optional (hr "laborRatePerHour") hrate]
    rfl
  accepts j o h := by
    unfold ofJson? at h
    simp only [↓Json.bind_eq_some, Json.pure_eq_some] at h
    obtain ⟨r, -, _, hcutting, _, hedge, _, hwelding, _, hsurface, _, hbase, _, hkg, _, hhours, _,
      hrate, rfl⟩ := h
    simp only [numbers, allFinite_append, allFinite_toList]
    exact ⟨float_lawful.of_optional hcutting, float_lawful.of_optional hedge,
      float_lawful.of_optional hwelding, float_lawful.of_optional hsurface,
      float_lawful.of_optional hbase, float_lawful.of_optional hkg,
      float_lawful.of_optional hhours, float_lawful.of_optional hrate⟩
  rejects := rfl

@[simp] theorem fits_toJson (levels : Nat) (o : RateOverrides) : o.toJson.Fits (levels + 1) := by
  simp [toJson]

@[simp] theorem isReadable_toJson (o : RateOverrides) : o.toJson.isReadable = true := by
  simp [toJson]

end RateOverrides

namespace ValidationRule

theorem lawful : Lawful (fun _ => True) toJson ofJson? where
  reads v _ := by
    refine bind_ofJson?_object rfl (by decide) fun r hr => ?_
    rw [string_lawful.required (hr "name") trivial,
      string_lawful.required (hr "expression") trivial,
      string_lawful.required (hr "message") trivial]
    rfl
  accepts _ _ _ := trivial
  rejects := rfl

@[simp] theorem fits_toJson (levels : Nat) (v : ValidationRule) : v.toJson.Fits (levels + 1) := by
  simp [toJson]

@[simp] theorem isReadable_toJson (v : ValidationRule) : v.toJson.isReadable = true := by
  simp [toJson]

end ValidationRule

/-! ## §7. Shapes. -/

namespace Shape

/-- The numbers of a shape. -/
def numbers (s : Shape) : List Float :=
  s.parameters.flatMap Parameter.numbers ++ (s.formulas.entries.flatMap (fun e => e.2.numbers)
    ++ s.fabricationCost.toList.flatMap RateOverrides.numbers)

theorem lawfulWith (tags : TagForm) :
    Lawful (fun s => AllFinite s.numbers) toJson (ofJsonWith? tags) where
  reads s hs := by
    simp only [numbers, allFinite_append, allFinite_flatMap, Option.mem_toList] at hs
    obtain ⟨hparameters, hformulas, hrates⟩ := hs
    refine bind_ofJson?_ofFields rfl (by decide) fun r hr => ?_
    rw [string_lawful.required (hr "key") trivial, string_lawful.required (hr "name") trivial,
      string_lawful.withDefault (hr "description") trivial,
      Category.lawful.required (hr "category") trivial,
      Identifier.lawful.optional (hr "id") fun _ _ => trivial,
      string_lawful.optional (hr "code") fun _ _ => trivial,
      (Parameter.lawfulWith tags).list.required (hr "parameters") hparameters,
      (FormulaEntry.lawfulWith tags).map.required (hr "formulas") hformulas,
      MaterialCategory.lawful.list.withDefault (hr "allowedMaterialCategories") fun _ _ => trivial,
      RateOverrides.lawful.optional (hr "fabricationCost") hrates,
      ValidationRule.lawful.list.withDefault (hr "validationRules") fun _ _ => trivial]
    rfl
  accepts j s h := by
    unfold ofJsonWith? at h
    simp only [↓Json.bind_eq_some, Json.pure_eq_some] at h
    obtain ⟨r, -, _, -, _, -, _, -, _, -, _, -, _, -, _, hparameters, _, hformulas, _, -, _, hrates,
      _, -, rfl⟩ := h
    simp only [numbers, allFinite_append, allFinite_flatMap, Option.mem_toList]
    exact ⟨(Parameter.lawfulWith tags).list.of_required hparameters,
      (FormulaEntry.lawfulWith tags).map.of_required hformulas,
      RateOverrides.lawful.of_optional hrates⟩
  rejects := rfl

theorem lawful : Lawful (fun s => AllFinite s.numbers) toJson ofJson? := lawfulWith .name

@[simp] theorem fits_toJson (levels : Nat) (s : Shape) : s.toJson.Fits (levels + 7) := by
  simp [toJson]

theorem isReadable_toJson (s : Shape) : s.toJson.isReadable = true := by
  simp [toJson, FormulaEntry.isReadable_toJson]

end Shape

/-! ## §8. Consistency. -/

namespace ConsistencyIssue

theorem isReadable_toJson (i : ConsistencyIssue) : i.toJson.isReadable = true := by
  cases i <;> simp [toJson, fields]

theorem ofTexts?_object {make : String → String → ConsistencyIssue} {first second : String}
    (hne : first ≠ second) (x y : String) :
    ofTexts? make first second (.object [(first, .string x), (second, .string y)])
      = some (make x y) := by
  have hn : [first, second].Nodup := by
    simp [hne]
  refine bind_ofJson?_object rfl hn fun r hr => ?_
  have hfirst : r.fields.lookup first = some (.string x) :=
    (hr first).trans List.lookup_cons_self
  have hsecond : r.fields.lookup second = some (.string y) := by
    rw [hr second, NameMap.lookup_cons_ite, if_neg hne.symm, List.lookup_cons_self]
  rw [string_lawful.required hfirst trivial, string_lawful.required hsecond trivial]
  rfl

theorem lawful : Lawful (fun _ => True) toJson ofJson? where
  reads i _ := by
    have hread := isReadable_toJson i
    unfold ofJson?
    cases i with
    | malformed formula message =>
      rw [toJson, fields, splitTag?_object (by simp) hread]
      simp only [Option.bind_eq_bind, Option.bind_some]
      exact ofTexts?_object (by simp) formula message
    | undeclaredVariable formula name =>
      rw [toJson, fields, splitTag?_object (by simp) hread]
      simp only [Option.bind_eq_bind, Option.bind_some]
      exact ofTexts?_object (by simp) formula name
    | unusedVariable formula name =>
      rw [toJson, fields, splitTag?_object (by simp) hread]
      simp only [Option.bind_eq_bind, Option.bind_some]
      exact ofTexts?_object (by simp) formula name
    | unknownParameter formula name =>
      rw [toJson, fields, splitTag?_object (by simp) hread]
      simp only [Option.bind_eq_bind, Option.bind_some]
      exact ofTexts?_object (by simp) formula name
    | unknownFormulaReference parameter formula =>
      rw [toJson, fields, splitTag?_object (by simp) hread]
      simp only [Option.bind_eq_bind, Option.bind_some]
      exact ofTexts?_object (by simp) parameter formula
    | unlistedUsage parameter formula =>
      rw [toJson, fields, splitTag?_object (by simp) hread]
      simp only [Option.bind_eq_bind, Option.bind_some]
      exact ofTexts?_object (by simp) parameter formula
  accepts _ _ _ := trivial
  rejects := rfl

@[simp] theorem fits_toJson (levels : Nat) (i : ConsistencyIssue) :
    i.toJson.Fits (levels + 1) := by
  cases i <;> simp [toJson, fields]

end ConsistencyIssue

end ShapeEstimator
