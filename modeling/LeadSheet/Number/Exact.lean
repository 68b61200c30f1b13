import LeadSheet.Number.Scalar

/-!
# Exact fractions as scalars

The fractions are the scalars in which nothing is rounded: every decimal and every integer is
itself, and every number is finite.
-/

namespace LeadSheet

instance : Scalar Rat where
  decidableLT := inferInstance
  decidableLE := inferInstance
  ofDecimal m places := (m : Rat) / 10 ^ places
  ofInt n := n
  floor? x := some x.floor

end LeadSheet
