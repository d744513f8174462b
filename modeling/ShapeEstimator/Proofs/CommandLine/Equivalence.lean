/-
  ShapeEstimator.Proofs.CommandLine.Equivalence
  ────────────────────────────────
  **REQUESTS THAT MEAN THE SAME.**

  A request names a shape by its key or holds it, and it spells values out or leaves them to the
  defaults.  Neither choice matters:

      { "shape": key }                 ≡  { "shape": what is shown for the key }
      { "applyDefaults": true }        ≡  { "applyDefaults": false, and the defaults spelled out }

  A shape survives being shown and read again because its numbers are finite; what is shown carries
  the stamps of the catalog.
-/
import ShapeEstimator.CommandLine.Run
import ShapeEstimator.Json.Writer
import ShapeEstimator.Proofs.Catalog.Record
import ShapeEstimator.Proofs.Json.Field

namespace ShapeEstimator

open Json (Record float_lawful setField field?)

/-! ## §1. Shapes of a catalog. -/

namespace Catalog

/-- Every number in the shapes of a catalog is finite. -/
def IsFinite (c : Catalog) : Prop := ∀ s ∈ c.shapes, AllFinite s.numbers

variable {c : Catalog} {key : String} {s : Shape}

/-- A stamp changes no number. -/
theorem IsFinite.of_find (h : c.IsFinite) (hs : c.find key = .ok s) : AllFinite s.numbers := by
  unfold find at hs
  split at hs
  · rename_i t ht
    cases hs
    exact h t (List.mem_of_find?_eq_some ht)
  · exact nomatch hs

theorem isFinite_standard : standard.IsFinite := by
  unfold IsFinite
  decide +kernel

end Catalog

/-- The default of a parameter is one of the numbers of its shape. -/
theorem Shape.defaultValues_finite {s : Shape} (h : AllFinite s.numbers) :
    ∀ e ∈ s.defaultValues.entries, e.2.isFinite = true := by
  intro e he
  obtain ⟨p, hp, hdefault⟩ := List.mem_filterMap.1 (NameMap.mem_of_mem_ofList he)
  obtain ⟨v, hv, rfl⟩ := Option.map_eq_some_iff.1 hdefault
  have hnumbers : AllFinite p.domain.numbers := by
    simp only [Shape.numbers, allFinite_append, allFinite_flatMap] at h
    exact h.1 p hp
  apply hnumbers v
  cases hdomain : p.domain <;> rw [hdomain] at hv <;>
    simp [ParameterDomain.numbers, ParameterDomain.default?] at hv ⊢ <;> simp [hv]

/-- The input with defaults has the given values, and the defaults elsewhere. -/
theorem EstimateInput.get?_withDefaults (input : EstimateInput) (n : String) :
    input.withDefaults.parameterValues.get? n
      = (input.parameterValues.get? n).or (input.shape.defaultValues.get? n) := by
  unfold withDefaults NameMap.get?
  generalize input.shape.defaultValues.entries = es
  show (es.foldl _ input.parameterValues).get? n = (input.parameterValues.get? n).or _
  generalize input.parameterValues = m
  induction es generalizing m with
  | nil => exact (Option.or_none).symm
  | cons e rest ih =>
    rw [List.foldl_cons, ih, NameMap.lookup_cons_ite]
    by_cases hm : m.contains e.1 = true
    · rw [if_pos hm]
      by_cases hn : n = e.1
      · -- the default does not replace the value
        obtain ⟨v, hv⟩ := NameMap.contains_iff.1 hm
        rw [hn, hv]
        rfl
      · rw [if_neg hn]
    · rw [if_neg hm, NameMap.get?_insert]
      by_cases hn : n = e.1
      · have hnone : m.get? e.1 = none := by
          simpa [NameMap.contains] using hm
        rw [if_pos hn, if_pos hn, hn, hnone]
        rfl
      · rw [if_neg hn, if_neg hn]

/-- What an input with defaults is. -/
theorem EstimateInput.withDefaults_eq {input : EstimateInput} {m : NameMap Float}
    (h : ∀ n, m.get? n = (input.parameterValues.get? n).or (input.shape.defaultValues.get? n)) :
    input.withDefaults = { input with parameterValues := m } := by
  have hvalues : input.withDefaults.parameterValues = m :=
    NameMap.ext_get? fun n => (input.get?_withDefaults n).trans (h n).symm
  rw [← hvalues]
  rfl

namespace CommandLine

/-! ## §2. The fields of a request. -/

namespace Request

/-- The names of the fields of a request, in order. -/
def fieldNames : List String :=
  ["shape", "material", "parameterValues", "quantity", "rateOverrides", "applyDefaults"]

/-- The request that fields make up. -/
def ofRecord? (r : Record) : Option Request := do
  return {
    shape := ← r.required "shape" ShapeReference.ofJson?
    material := ← r.required "material" Material.ofJson?
    parameterValues := ← r.withDefault "parameterValues" .empty (Json.map? Json.float?)
    quantity := ← r.optional "quantity" Json.float?
    rateOverrides := ← r.optional "rateOverrides" RateOverrides.ofJson?
    applyDefaults := ← r.withDefault "applyDefaults" false Json.bool? }

/-- Whether a value is a list that ends too early. -/
def isShort : Json → Bool
  | .array items => decide (items.length < 5)
  | _ => false

variable {r r' : Record} {j : Json} {q : Request} {s : Shape} {name key : String} {value : Json}

theorem ofJson?_of_record (h : Record.ofJson? fieldNames j = some r) :
    ofJson? j = if isShort j then none else ofRecord? r := by
  have h : Record.ofJson?
    ["shape", "material", "parameterValues", "quantity", "rateOverrides", "applyDefaults"] j
      = some r := h
  unfold ofJson?
  rw [h]
  cases j with
  | array items =>
    by_cases hlength : items.length < 5
    · simp [isShort, hlength]
    · simp [isShort, hlength, ofRecord?]
  | _ => rfl

/-- A value with the fields of a request is an object or a list. -/
theorem exists_record (h : ofJson? j = some q) :
    ∃ r, Record.ofJson? fieldNames j = some r ∧ isShort j = false ∧ ofRecord? r = some q := by
  obtain ⟨r, hr, -⟩ := Json.bind_eq_some.1 h
  have heq := (ofJson?_of_record hr).symm.trans h
  cases hshort : isShort j with
  | true =>
    rw [hshort] at heq
    exact nomatch heq
  | false =>
    rw [hshort] at heq
    exact ⟨r, hr, rfl, heq⟩

@[simp] theorem isShort_setField (name : String) (value j : Json) :
    isShort (setField fieldNames name value j) = isShort j := by
  cases j <;> simp [setField, isShort]

/-! ## §3. A shape by its key and as it is. -/

/-- A shape as it is for a key: the request asks for the shape itself, and for nothing else. -/
theorem ofRecord?_inline (hkey : r.fields.lookup "shape" = some (.string key))
    (hs : AllFinite s.numbers)
    (hr : ∀ n, r'.fields.lookup n = if n = "shape" then some s.toJson else r.fields.lookup n) :
    ofRecord? r' = (ofRecord? r).map fun q => { q with shape := .inline s } := by
  have hread : ShapeReference.ofJson? s.toJson = some (.inline s) := by
    have hshape := (Shape.lawfulWith .nameOrPlace).reads s hs
    unfold ShapeReference.ofJson?
    rw [Shape.isReadable_toJson, if_neg (by decide)]
    show (Shape.ofJsonWith? .nameOrPlace s.toJson).map ShapeReference.inline = _
    rw [hshape]
    rfl
  have hshape : r'.required "shape" ShapeReference.ofJson? = some (.inline s) := by
    unfold Record.required
    rw [hr, if_pos rfl]
    exact hread
  have hcatalogued : r.required "shape" ShapeReference.ofJson? = some (.catalogued key) := by
    unfold Record.required
    rw [hkey]
    rfl
  have hstays : ∀ n, n ≠ "shape" → r'.fields.lookup n = r.fields.lookup n :=
    fun n hn => (hr n).trans (if_neg hn)
  unfold ofRecord?
  rw [hshape, hcatalogued, Json.required_congr (hstays "material" (by decide)),
    Json.withDefault_congr (hstays "parameterValues" (by decide)),
    Json.optional_congr (hstays "quantity" (by decide)),
    Json.optional_congr (hstays "rateOverrides" (by decide)),
    Json.withDefault_congr (hstays "applyDefaults" (by decide))]
  simp

/-- A text in the place of the shape is its key. -/
theorem shape_of_ofRecord? (hkey : r.fields.lookup "shape" = some (.string key))
    (h : ofRecord? r = some q) : q.shape = .catalogued key := by
  unfold ofRecord? at h
  simp only [↓Json.bind_eq_some, Json.pure_eq_some] at h
  obtain ⟨shape, hshape, _, -, _, -, _, -, _, -, _, -, rfl⟩ := h
  unfold Record.required at hshape
  rw [hkey] at hshape
  exact (Option.some_inj.1 hshape).symm

/-- A request that holds the shape of a key asks for what the request with the key asks for. -/
theorem toInput_inline {catalog : Catalog} (hq : q.shape = .catalogued key)
    (hs : catalog.find key = .ok s) :
    Request.toInput catalog { q with shape := .inline s } = q.toInput catalog := by
  unfold toInput
  rw [hq]
  show _ = (catalog.find key >>= _)
  rw [hs]
  rfl

/-! ## §4. Defaults and values. -/

/-- The defaults that the shape of a request declares; none if there is no such shape. -/
def declaredDefaults (catalog : Catalog) (q : Request) : NameMap Float :=
  match q.shape.resolve catalog with
  | .ok s => s.defaultValues
  | .error _ => .empty

/-- The defaults of the parameters that a request leaves out. -/
def missingDefaults (catalog : Catalog) (q : Request) : NameMap Float :=
  (q.declaredDefaults catalog).restrict fun n => !q.parameterValues.contains n

/-- The values that a request gives, as they are written. -/
def writtenValues (j : Json) : List (String × Json) :=
  match field? fieldNames "parameterValues" j with
  | some (.object members) => members
  | _ => []

/-- There is room for values in a request. -/
theorem hasRoom_values (hshort : isShort j = false) :
    Json.HasRoom fieldNames "parameterValues" j := by
  cases j with
  | array items =>
    have hlength : 5 ≤ items.length := Nat.le_of_not_lt (of_decide_eq_false hshort)
    show 2 < items.length
    omega
  | _ => trivial

/-- A request asks for defaults only if it says so. -/
theorem exists_of_applyDefaults (h : ofRecord? r = some q) (hq : q.applyDefaults = true) :
    ∃ value, r.fields.lookup "applyDefaults" = some value := by
  unfold ofRecord? at h
  simp only [↓Json.bind_eq_some, Json.pure_eq_some] at h
  obtain ⟨_, -, _, -, _, -, _, -, _, -, apply, happly, rfl⟩ := h
  unfold Record.withDefault at happly
  cases hlookup : r.fields.lookup "applyDefaults" with
  | some value => exact ⟨value, rfl⟩
  | none =>
    rw [hlookup] at happly
    cases happly
    exact nomatch hq

/-- The values of a request are those of its field. -/
theorem parameterValues_of_ofRecord? (h : ofRecord? r = some q) :
    r.withDefault "parameterValues" .empty (Json.map? Json.float?) = some q.parameterValues := by
  unfold ofRecord? at h
  simp only [↓Json.bind_eq_some, Json.pure_eq_some] at h
  obtain ⟨_, -, _, -, values, hvalues, _, -, _, -, _, -, rfl⟩ := h
  exact hvalues

/-- The request, written with all values it gives and the defaults behind them, and not asking for
defaults. -/
def spellDefaults (catalog : Catalog) (q : Request) (j : Json) : Json :=
  let defaults := (q.missingDefaults catalog).entries.map fun e => (e.1, Json.ofFloat e.2)
  setField fieldNames "applyDefaults" (.bool false)
    (setField fieldNames "parameterValues" (.object (writtenValues j ++ defaults)) j)

section Defaults

variable {catalog : Catalog}

theorem shape_finite (hcatalog : catalog.IsFinite) (h : ofRecord? r = some q)
    (hs : q.shape.resolve catalog = .ok s) : AllFinite s.numbers := by
  unfold ofRecord? at h
  simp only [↓Json.bind_eq_some, Json.pure_eq_some] at h
  obtain ⟨shape, hshape, _, -, _, -, _, -, _, -, _, -, rfl⟩ := h
  cases shape with
  | catalogued key => exact hcatalog.of_find hs
  | inline t =>
    cases hs
    obtain ⟨j, -, hj⟩ := Option.bind_eq_some_iff.1 hshape
    unfold ShapeReference.ofJson? at hj
    split at hj
    · exact nomatch hj
    · split at hj
      · exact nomatch hj
      · obtain ⟨t', ht', heq⟩ := Option.map_eq_some_iff.1 hj
        cases heq
        exact (Shape.lawfulWith .nameOrPlace).accepts _ _ ht'

theorem missingDefaults_finite (hcatalog : catalog.IsFinite) (h : ofRecord? r = some q) :
    ∀ e ∈ (q.missingDefaults catalog).entries, e.2.isFinite = true := by
  intro e he
  have he : e ∈ (q.declaredDefaults catalog).entries := (List.mem_filter.1 he).1
  unfold declaredDefaults at he
  split at he
  · rename_i s hs
    exact Shape.defaultValues_finite (shape_finite hcatalog h hs) e he
  · exact absurd he List.not_mem_nil

/-- Values that are written behind others count before them. -/
theorem map?_written {m d : NameMap Float} (hr : Record.ofJson? fieldNames j = some r)
    (hm : r.withDefault "parameterValues" .empty (Json.map? Json.float?) = some m)
    (hd : ∀ e ∈ d.entries, e.2.isFinite = true) :
    ∃ m', Json.map? Json.float?
        (.object (writtenValues j ++ d.entries.map fun e => (e.1, Json.ofFloat e.2))) = some m'
      ∧ ∀ n, m'.get? n = (d.get? n).or (m.get? n) := by
  -- the values that are given are those of a list of entries
  obtain ⟨es, hes, hmap⟩ : ∃ es : List (String × Float),
      (writtenValues j).mapM (fun m => (Json.float? m.2).map fun x => (m.1, x)) = some es
        ∧ NameMap.ofList es = m := by
    have hfield : field? fieldNames "parameterValues" j = r.fields.lookup "parameterValues" := by
      unfold field?
      rw [hr]
      rfl
    unfold Record.withDefault at hm
    unfold writtenValues
    rw [hfield]
    cases hlookup : r.fields.lookup "parameterValues" with
    | none =>
      rw [hlookup] at hm
      cases hm
      exact ⟨[], rfl, rfl⟩
    | some value =>
      rw [hlookup] at hm
      cases value with
      | object members => exact Option.map_eq_some_iff.1 hm
      | _ => exact nomatch hm
  have hdefaults : (d.entries.map fun e => (e.1, Json.ofFloat e.2)).mapM
      (fun m => (Json.float? m.2).map fun x => (m.1, x)) = some d.entries := by
    apply Json.mapM_eq_some_of_map
    intro e he
    show (Json.float? (Json.ofFloat e.2)).map _ = _
    rw [float_lawful.reads e.2 (hd e he)]
    rfl
  refine ⟨.ofList (es ++ d.entries), ?_, ?_⟩
  · show Option.map NameMap.ofList _ = _
    rw [List.mapM_append, hes, hdefaults]
    rfl
  · intro n
    rw [NameMap.get?_ofList_append, NameMap.ofList_entries, hmap]

/-- The defaults behind the values of a request, and the values themselves. -/
theorem get?_missingDefaults (n : String) :
    ((q.missingDefaults catalog).get? n).or (q.parameterValues.get? n)
      = (q.parameterValues.get? n).or ((q.declaredDefaults catalog).get? n) := by
  unfold missingDefaults
  rw [NameMap.get?_restrict]
  unfold NameMap.contains
  cases q.parameterValues.get? n <;> simp

/-- The fields with the defaults spelled out: the request asks for the same values. -/
theorem ofRecord?_spelled {value : Json} {m : NameMap Float} (h : ofRecord? r = some q)
    (hvalue : Json.map? Json.float? value = some m)
    (hr : ∀ n, r'.fields.lookup n =
      if n = "applyDefaults" then some (.bool false)
      else if n = "parameterValues" then some value else r.fields.lookup n) :
    ofRecord? r' = some { q with parameterValues := m, applyDefaults := false } := by
  have happly : r'.withDefault "applyDefaults" false Json.bool? = some false := by
    unfold Record.withDefault
    rw [hr, if_pos rfl]
    rfl
  have hvalues : r'.withDefault "parameterValues" .empty (Json.map? Json.float?) = some m := by
    unfold Record.withDefault
    rw [hr, if_neg (by decide), if_pos rfl]
    exact hvalue
  have hstays : ∀ n, n ≠ "applyDefaults" → n ≠ "parameterValues" →
      r'.fields.lookup n = r.fields.lookup n :=
    fun n hn hn' => (hr n).trans ((if_neg hn).trans (if_neg hn'))
  unfold ofRecord? at h
  simp only [↓Json.bind_eq_some, Json.pure_eq_some] at h
  obtain ⟨shape, hshape, material, hmaterial, _, -, quantity, hquantity, rates, hrates, _, -, rfl⟩ :=
    h
  unfold ofRecord?
  rw [happly, hvalues, Json.required_congr (hstays "shape" (by decide) (by decide)), hshape,
    Json.required_congr (hstays "material" (by decide) (by decide)), hmaterial,
    Json.optional_congr (hstays "quantity" (by decide) (by decide)), hquantity,
    Json.optional_congr (hstays "rateOverrides" (by decide) (by decide)), hrates]
  rfl

/-- A request that spells its defaults out asks for what the request with defaults asks for. -/
theorem toInput_spelled {m : NameMap Float} (hq : q.applyDefaults = true)
    (hm : ∀ n, m.get? n
      = (q.parameterValues.get? n).or ((q.declaredDefaults catalog).get? n)) :
    Request.toInput catalog { q with parameterValues := m, applyDefaults := false }
      = q.toInput catalog := by
  unfold toInput
  unfold declaredDefaults at hm
  cases hs : q.shape.resolve catalog with
  | error fault => rfl
  | ok s =>
    rw [hs] at hm
    rw [hq]
    let input : EstimateInput :=
      { shape := s, material := q.material, parameterValues := q.parameterValues
        quantity := q.quantity.getD 1, rateOverrides := q.rateOverrides }
    have hinput : input.withDefaults = { input with parameterValues := m } :=
      EstimateInput.withDefaults_eq hm
    show Except.ok { input with parameterValues := m } = Except.ok input.withDefaults
    rw [hinput]

end Defaults

end Request

/-! ## §5. Outcomes. -/

section Outcomes

variable {text text' key path : String} {settings source : Option String} {j shown answer : Json}
  {sources : Sources} {q : Request}

/-- The outcome of a command that calculates the request in a text over the standard catalog, or
what aborts it. -/
def calculated (path : String) (settings source : Option String) (text : String) :
    Except Abort Outcome :=
  (Command.calculate path settings).run .standard ⟨source, some text⟩

/-- Requests that ask for the same input have the same outcome. -/
theorem calculated_congr
    (h : ((Json.read? text').bind Request.ofJson?).map (Request.toInput .standard)
      = ((Json.read? text).bind Request.ofJson?).map (Request.toInput .standard)) :
    calculated path settings source text' = calculated path settings source text := by
  unfold calculated Command.run runCalculate readRequest
  dsimp only
  cases h' : (Json.read? text').bind Request.ofJson? with
  | none =>
    cases h'' : (Json.read? text).bind Request.ofJson? with
    | none => rfl
    | some q =>
      rw [h', h''] at h
      exact nomatch h
  | some q' =>
    cases h'' : (Json.read? text).bind Request.ofJson? with
    | none =>
      rw [h', h''] at h
      exact nomatch h
    | some q =>
      rw [h', h''] at h
      have hinput : q'.toInput .standard = q.toInput .standard := Option.some_inj.1 h
      show Outcome.ofRun (orFail (readSettings settings source) >>= fun s =>
          orFail (orFault (q'.toInput .standard)) >>= _) = _
      rw [hinput]
      rfl

/-- What is shown for a key is the shape that the key finds. -/
theorem shown_of_display
    (h : (Command.display key).run .standard sources = .ok ⟨some answer, none⟩)
    (hshown : Json.read? answer.pretty = some shown) :
    ∃ s, Catalog.standard.find key = .ok s ∧ shown = s.toJson := by
  have h : Outcome.ofExcept (runDisplay .standard key) = ⟨some answer, none⟩ := Except.ok.inj h
  unfold runDisplay at h
  cases hs : Catalog.standard.find key with
  | error fault =>
    rw [hs] at h
    exact nomatch h
  | ok s =>
    rw [hs] at h
    have hanswer : some s.toJson = some answer := congrArg Outcome.answer h
    cases hanswer
    rw [Json.read?_pretty (s.fits_toJson 120)] at hshown
    exact ⟨s, rfl, (Option.some_inj.1 hshown).symm⟩

/-- The shape that is shown for a key may stand for the key. -/
theorem calculated_inline (hj : Json.read? text = some j)
    (hdisplay : (Command.display key).run .standard sources = .ok ⟨some answer, none⟩)
    (hshown : Json.read? answer.pretty = some shown)
    (hkey : field? Request.fieldNames "shape" j = some (.string key))
    (hj' : Json.read? text' = some (setField Request.fieldNames "shape" shown j)) :
    calculated path settings source text' = calculated path settings source text := by
  obtain ⟨s, hs, rfl⟩ := shown_of_display hdisplay hshown
  obtain ⟨r, hr, hlookup⟩ := Option.bind_eq_some_iff.1 hkey
  obtain ⟨r', hr', hfields⟩ := Json.ofJson?_setField s.toJson hr (by decide)
    (Json.hasRoom_of_lookup hr hlookup)
  have hrecord := Request.ofRecord?_inline hlookup (Catalog.isFinite_standard.of_find hs) hfields
  apply calculated_congr
  rw [hj, hj', Option.bind_some, Option.bind_some, Request.ofJson?_of_record hr,
    Request.ofJson?_of_record hr', Request.isShort_setField, hrecord]
  split
  · rfl
  · cases hq : Request.ofRecord? r with
    | none => rfl
    | some q =>
      have hshape := Request.shape_of_ofRecord? hlookup hq
      exact congrArg some (Request.toInput_inline hshape hs)

/-- The defaults may be spelled out. -/
theorem calculated_spelled (hj : Json.read? text = some j) (hq : Request.ofJson? j = some q)
    (happly : q.applyDefaults = true)
    (hj' : Json.read? text' = some (q.spellDefaults .standard j)) :
    calculated path settings source text' = calculated path settings source text := by
  obtain ⟨r, hr, hshort, hrecord⟩ := Request.exists_record hq
  have hfinite := Request.missingDefaults_finite Catalog.isFinite_standard hrecord
  obtain ⟨m, hm, hget⟩ :=
    Request.map?_written hr (Request.parameterValues_of_ofRecord? hrecord) hfinite
  -- the values are spelled out first, then the request no longer asks for defaults
  obtain ⟨r₁, hr₁, hfields₁⟩ := Json.ofJson?_setField _ hr (by decide)
    (Request.hasRoom_values hshort)
  obtain ⟨value, hvalue⟩ := Request.exists_of_applyDefaults hrecord happly
  have hvalue₁ : r₁.fields.lookup "applyDefaults" = some value :=
    (hfields₁ _).trans ((if_neg (by decide)).trans hvalue)
  obtain ⟨r₂, hr₂, hfields₂⟩ := Json.ofJson?_setField (.bool false) hr₁ (by decide)
    (Json.hasRoom_of_lookup hr₁ hvalue₁)
  have hspelled : Request.ofRecord? r₂
      = some { q with parameterValues := m, applyDefaults := false } := by
    apply Request.ofRecord?_spelled hrecord hm
    intro n
    rw [hfields₂, hfields₁]
  have hinput := Request.toInput_spelled happly fun n =>
    (hget n).trans (Request.get?_missingDefaults n)
  apply calculated_congr
  unfold Request.spellDefaults at hj'
  rw [hj, hj', Option.bind_some, Option.bind_some, hq, Request.ofJson?_of_record hr₂,
    Request.isShort_setField, Request.isShort_setField, hshort, hspelled]
  exact congrArg some hinput

/-- **Requests that mean the same.**  Let a text hold a request.  A text that holds the request with
what is shown for a key in the place of the key has the same outcome; and so has, if the request asks
for defaults, a text that holds the request with the defaults of the parameters that it leaves out
behind its values, not asking for defaults.  Where the one is aborted, so is the other. -/
theorem equivalent_requests (path : String) (settings source : Option String)
    (hj : Json.read? text = some j) :
    (∀ key sources answer shown,
      (Command.display key).run .standard sources = .ok ⟨some answer, none⟩ →
      Json.read? answer.pretty = some shown →
      field? Request.fieldNames "shape" j = some (.string key) →
      ∀ text', Json.read? text' = some (setField Request.fieldNames "shape" shown j) →
        calculated path settings source text' = calculated path settings source text)
      ∧ ∀ q, Request.ofJson? j = some q → q.applyDefaults = true →
        ∀ text', Json.read? text' = some (q.spellDefaults .standard j) →
          calculated path settings source text' = calculated path settings source text :=
  ⟨fun _ _ _ _ hdisplay hshown hkey _ hj' => calculated_inline hj hdisplay hshown hkey hj',
    fun _ hq happly _ hj' => calculated_spelled hj hq happly hj'⟩

/-- A request for a nozzle that gives the diameter alone. -/
def nozzleRequest : Json :=
  .object
    [("shape", .string "nozzle"),
      ("material", .object
        [("id", .string "P265GH"), ("name", .string "P265GH"), ("category", .string "carbon_steel"),
          ("density", Json.ofNat 7850)]),
      ("parameterValues", .object [("d", Json.ofNat 300)]), ("applyDefaults", .bool true)]

/-- The request for a nozzle, with the nozzle that is shown and with the usual thickness and
projection. -/
theorem nozzleRequest_equivalents :
    ∃ shape q, Catalog.standard.find "nozzle" = .ok shape
      ∧ Request.ofJson? nozzleRequest = some q
      ∧ (q.missingDefaults .standard).names = ["h", "t"]
      ∧ ∀ path settings source,
        calculated path settings source
            (setField Request.fieldNames "shape" shape.toJson nozzleRequest).write
          = calculated path settings source nozzleRequest.write
        ∧ calculated path settings source (q.spellDefaults .standard nozzleRequest).write
          = calculated path settings source nozzleRequest.write := by
  have hfits : nozzleRequest.Fits Json.maxLevels := by
    simp [nozzleRequest, Json.maxLevels]
  obtain ⟨q, hq, happly, hmissing⟩ : ∃ q, Request.ofJson? nozzleRequest = some q
      ∧ q.applyDefaults = true ∧ (q.missingDefaults .standard).names = ["h", "t"] := by
    have hany : (Request.ofJson? nozzleRequest).any (fun q => q.applyDefaults
        && decide ((q.missingDefaults .standard).names = ["h", "t"])) = true := by
      decide +kernel
    obtain ⟨q, hq, h⟩ := (Option.any_eq_true _ _).1 hany
    obtain ⟨happly, hmissing⟩ := Bool.and_eq_true_iff.1 h
    exact ⟨q, hq, happly, of_decide_eq_true hmissing⟩
  let shape := Catalog.standard.stamp Standard.nozzle
  have hfind : Catalog.standard.find "nozzle" = .ok shape := by
    rfl
  refine ⟨shape, q, hfind, hq, hmissing, fun path settings source => ?_⟩
  obtain ⟨hinline, hspelled⟩ :=
    equivalent_requests path settings source (Json.read?_write hfits)
  constructor
  · apply hinline "nozzle" ⟨none, none⟩ shape.toJson shape.toJson
    · show Except.ok (Outcome.ofExcept (runDisplay .standard "nozzle")) = _
      rw [runDisplay, hfind]
      rfl
    · exact Json.read?_pretty (shape.fits_toJson 120)
    · rfl
    · exact Json.read?_write (Json.fits_setField (shape.fits_toJson 119) hfits)
  · apply hspelled q hq happly
    apply Json.read?_write
    -- the values that are given and the defaults behind them are numbers
    have hvalues : ∀ e ∈ Request.writtenValues nozzleRequest, e.2.Fits 125 := by
      show ∀ e ∈ [("d", Json.ofNat 300)], e.2.Fits 125
      simp
    have hall : Json.Fits 126 (.object (Request.writtenValues nozzleRequest
        ++ (q.missingDefaults .standard).entries.map fun e => (e.1, Json.ofFloat e.2))) := by
      rw [Json.fits_object, List.forall_mem_append]
      refine ⟨hvalues, fun m hm => ?_⟩
      obtain ⟨e, -, rfl⟩ := List.mem_map.1 hm
      exact Json.fits_ofFloat 125 e.2
    unfold Request.spellDefaults
    exact Json.fits_setField (Json.fits_bool 126 false) (Json.fits_setField hall hfits)

end Outcomes

end CommandLine

end ShapeEstimator
