/-
  ShapeEstimator.Measure
  ────────────────────────────────
  **QUANTITIES WITH UNITS.**

  Formulas work in millimetres, rates are quoted per metre and square metre, and
  densities per cubic metre.  Each unit is a type of its own, so a conversion
  cannot be left out:

      area · thickness  =  volume        volume · density  =  mass
-/

namespace ShapeEstimator

/-! ## §1. Units. -/

/-- A length in millimetres. -/
structure Millimetres where
  /-- The number of millimetres. -/
  value : Float

/-- A length in metres. -/
structure Metres where
  /-- The number of metres. -/
  value : Float

/-- An area in square millimetres. -/
structure SquareMillimetres where
  /-- The number of square millimetres. -/
  value : Float

/-- An area in square metres. -/
structure SquareMetres where
  /-- The number of square metres. -/
  value : Float

/-- A volume in cubic millimetres. -/
structure CubicMillimetres where
  /-- The number of cubic millimetres. -/
  value : Float

/-- A volume in cubic metres. -/
structure CubicMetres where
  /-- The number of cubic metres. -/
  value : Float

/-- A mass in kilograms. -/
structure Kilograms where
  /-- The number of kilograms. -/
  value : Float

/-- A density in kilograms per cubic metre. -/
structure Density where
  /-- The number of kilograms per cubic metre. -/
  value : Float

/-! ## §2. Conversions. -/

/-- The same length in metres. -/
def Millimetres.toMetres (x : Millimetres) : Metres := ⟨x.value / 1e3⟩

/-- The same length in millimetres. -/
def Metres.toMillimetres (x : Metres) : Millimetres := ⟨x.value * 1e3⟩

/-- The same area in square metres. -/
def SquareMillimetres.toSquareMetres (x : SquareMillimetres) : SquareMetres := ⟨x.value / 1e6⟩

/-- The same volume in cubic metres. -/
def CubicMillimetres.toCubicMetres (x : CubicMillimetres) : CubicMetres := ⟨x.value / 1e9⟩

/-! ## §3. Operations. -/

/-- The difference of two areas. -/
def SquareMillimetres.sub (x y : SquareMillimetres) : SquareMillimetres := ⟨x.value - y.value⟩

/-- The volume under an area of a given thickness. -/
def SquareMillimetres.times (x : SquareMillimetres) (thickness : Millimetres) : CubicMillimetres :=
  ⟨x.value * thickness.value⟩

/-- The mass of a volume. -/
def CubicMetres.mass (x : CubicMetres) (density : Density) : Kilograms :=
  ⟨x.value * density.value⟩

/-- The sum of two masses. -/
def Kilograms.add (x y : Kilograms) : Kilograms := ⟨x.value + y.value⟩

/-- A multiple of a mass. -/
def Kilograms.scale (x : Kilograms) (factor : Float) : Kilograms := ⟨x.value * factor⟩

end ShapeEstimator
