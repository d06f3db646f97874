/-!
# Shortest decimal text of a binary number

A finite binary number stands for an interval of reals: those that round to it. Among the
decimals of that interval the text shows one on the coarsest decimal grid that meets the
interval, and on that grid the point nearest to the number, a tie going away from zero.
The text is positional for every magnitude, so it has no exponent part.
-/
namespace ImageViews.Decimal

/-- The positive number `significand * 2 ^ exponent`. The gap to the number below is half the
gap to the number above exactly when `narrowBelow` holds. -/
structure Binary where
  significand : Nat
  exponent : Int
  narrowBelow : Bool

/-- The magnitude of a finite double, read from its bits; zero has significand zero. -/
def Binary.ofBits (bits : UInt64) : Binary :=
  let biased := ((bits >>> 52) &&& 0x7ff).toNat
  let fraction := (bits &&& 0xfffffffffffff).toNat
  if biased = 0 then
    { significand := fraction, exponent := -1074, narrowBelow := false }
  else
    { significand := 0x10000000000000 + fraction
      exponent := (biased : Int) - 1075
      narrowBelow := fraction = 0 && 1 < biased }

/-- Numerator of `quarters * 2 ^ (exponent - 2)` measured in units of `10 ^ grid`, over the
denominator `Binary.gridUnit`. -/
def Binary.onGrid (x : Binary) (grid : Int) (quarters : Nat) : Nat :=
  (quarters <<< (x.exponent - 2).toNat) * Nat.pow 10 (-grid).toNat

def Binary.gridUnit (x : Binary) (grid : Int) : Nat :=
  (1 <<< (2 - x.exponent).toNat) * Nat.pow 10 grid.toNat

/-- Whether `digits * 10 ^ grid` rounds to `x`. The ends of the interval belong to it exactly
when the significand is even. -/
def Binary.holds (x : Binary) (grid : Int) (digits : Nat) : Bool :=
  let lower := x.onGrid grid (4 * x.significand - if x.narrowBelow then 1 else 2)
  let upper := x.onGrid grid (4 * x.significand + 2)
  let value := digits * x.gridUnit grid
  if x.significand % 2 = 0 then lower ≤ value && value ≤ upper
  else lower < value && value < upper

/-- The point of the grid `10 ^ grid` that rounds to `x` and is nearest to it. Only the two
neighbours of `x` on the grid are candidates. -/
def Binary.nearestOn (x : Binary) (grid : Int) : Option Nat :=
  let value := x.onGrid grid (4 * x.significand)
  let unit := x.gridUnit grid
  let below := value / unit
  match x.holds grid below, x.holds grid (below + 1) with
  | true, true => some (if 2 * value < (2 * below + 1) * unit then below else below + 1)
  | true, false => some below
  | false, true => some (below + 1)
  | false, false => none

/-- The digits and the grid of the shortest decimal. The finest grid searched holds every finite
double itself. -/
def Binary.shortest (x : Binary) : Nat × Int :=
  let grids := (List.range 1383).map fun (i : Nat) => (308 : Int) - i
  (grids.findSome? fun grid => (x.nearestOn grid).map (·, grid)).getD (0, 0)

def positional (digits : Nat) (grid : Int) : String :=
  let text := (Nat.toDigits 10 digits)
  if 0 ≤ grid then
    String.ofList (text ++ List.replicate grid.toNat '0')
  else
    let places := (-grid).toNat
    let padded := List.replicate (places + 1 - text.length) '0' ++ text
    let whole := padded.length - places
    String.ofList (padded.take whole ++ '.' :: padded.drop whole)

/-- The shortest text that reads back as `x`. Zero keeps its sign. -/
def text (x : Float) : String :=
  if x.isNaN then
    "NaN"
  else
    let bits := x.toBits
    let sign := if bits >>> 63 = 0 then "" else "-"
    if x.isInf then
      sign ++ "inf"
    else
      let magnitude := Binary.ofBits bits
      if magnitude.significand = 0 then
        sign ++ "0"
      else
        let (digits, grid) := magnitude.shortest
        sign ++ positional digits grid

end ImageViews.Decimal
