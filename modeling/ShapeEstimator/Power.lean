/-
  ShapeEstimator.Power
  ────────────────────────────────
  **POWERS OF NATURALS.**

  Scales are powers of ten and sizes of words are powers of two.  On natural
  numbers `a ^ n` is the power of the core library, also in a module that knows
  powers in monoids: a definition means the same wherever it is read.
-/

namespace ShapeEstimator

attribute [instance (2000), default_instance 20000] instPowNat

end ShapeEstimator
