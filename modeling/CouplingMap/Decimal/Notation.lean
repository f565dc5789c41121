import CouplingMap.Text.Numeral

/-!
# Notations for decimals

* `positional`: digits with a point among them, or with zeros up to the point.
* `scientific`: one digit before the point, and an exponent.
-/

namespace CouplingMap.Decimal

/-- Positional notation: digits, and a point that stands after the first `point` of them. -/
def positional (ds : List Char) (point : Int) : List Char :=
  if point ≤ 0 then ['0', '.'] ++ List.replicate (-point).toNat '0' ++ ds
  else if (ds.length : Int) ≤ point then
    ds ++ List.replicate (point.toNat - ds.length) '0' ++ ['.', '0']
  else ds.take point.toNat ++ '.' :: ds.drop point.toNat

/-- Scientific notation with a sign in the exponent: the point stands after the first digit. -/
def scientific (ds : List Char) (exponent : Int) : List Char :=
  let mantissa :=
    match ds with
    | [] => []
    | [d] => [d]
    | d :: ds => d :: '.' :: ds
  mantissa ++ 'e' :: (if exponent < 0 then '-' else '+') :: Text.digits exponent.natAbs

end CouplingMap.Decimal
