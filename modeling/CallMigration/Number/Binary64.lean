/-!
# Binary64 numbers

The finite non-negative numbers of the 64-bit floating-point format, as integers times powers of
two, with exact rounding and with the shortest decimal that reads back.

## Main Definitions

* `Binary64` — a finite non-negative number `mantissa * 2 ^ exponent`
* `Binary64.ofRatio?` — the number nearest to a ratio, an exact half going to the even mantissa
* `Binary64.scale?` — multiplication by a power of ten, one rounding a step
* `Binary64.shortest` — the fewest decimal digits that read back as the number
* `Binary64.text` — the decimal text of a number

## Design Notes

All arithmetic is on natural numbers, so rounding is what the definitions say and nothing depends
on a machine. A power of ten is itself rounded before it is multiplied by, as a table of such
powers would hold it.
-/

namespace CallMigration

/-- A finite non-negative number of the format. -/
structure Binary64 where
  mantissa : Nat
  exponent : Int
  deriving DecidableEq, Repr

namespace Binary64

/-- The least exponent. -/
def leastExponent : Int := -1074

/-- The greatest exponent. -/
def greatestExponent : Int := 971

/-- The number of bits of a full mantissa. -/
def precision : Nat := 53

/-- Zero. -/
def zero : Binary64 := ⟨0, leastExponent⟩

/-! ### Rounding -/

/-- The integer nearest to `n / d`, an exact half going to the even one. -/
def roundDiv (n d : Nat) : Nat :=
  let q := n / d
  let twice := 2 * (n % d)
  if twice < d then q else if d < twice then q + 1 else q + q % 2

/-- The greatest `k` with `2 ^ k ≤ n / d`, for positive `n` and `d`. -/
def log2Ratio (n d : Nat) : Int :=
  let k : Int := n.log2 - d.log2
  let reaches := if 0 ≤ k then d * Nat.pow 2 k.toNat ≤ n else d ≤ n * Nat.pow 2 (-k).toNat
  if reaches then k else k - 1

/-- The ratio `n / d` over `2 ^ e`, rounded. -/
def mantissaAt (n d : Nat) (e : Int) : Nat :=
  if 0 ≤ e then roundDiv n (d * Nat.pow 2 e.toNat) else roundDiv (n * Nat.pow 2 (-e).toNat) d

/-- The number nearest to `n / d`, unless that is too large for the format. -/
def ofRatio? (n d : Nat) : Option Binary64 :=
  if n = 0 then some zero
  else
    let e := max leastExponent (log2Ratio n d - (precision - 1))
    let m := mantissaAt n d e
    let (m, e) := if m = Nat.pow 2 precision then (m / 2, e + 1) else (m, e)
    if greatestExponent < e then none else some ⟨m, e⟩

/-- The numerator of a number. -/
def numerator (x : Binary64) : Nat := x.mantissa * Nat.pow 2 x.exponent.toNat

/-- The denominator of a number, a power of two. -/
def denominator (x : Binary64) : Nat := Nat.pow 2 (-x.exponent).toNat

/-! ### Powers of ten -/

/-- The greatest power of ten that the format holds. -/
def greatestPower : Nat := 308

/-- The product of two numbers. -/
def mul? (x y : Binary64) : Option Binary64 :=
  ofRatio? (x.numerator * y.numerator) (x.denominator * y.denominator)

/-- The quotient of two numbers, the second one positive. -/
def div? (x y : Binary64) : Option Binary64 :=
  ofRatio? (x.numerator * y.denominator) (x.denominator * y.numerator)

/-- The number nearest to a power of ten. -/
def powerOfTen? (k : Nat) : Option Binary64 := ofRatio? (Nat.pow 10 k) 1

/-- Divides by the greatest power of ten, a number of times. -/
def divGreatest? (x : Binary64) : Nat → Option Binary64
  | 0 => some x
  | n + 1 =>
    match (powerOfTen? greatestPower).bind x.div? with
    | none => none
    | some y => divGreatest? y n

/-- The quotient `x / 10 ^ k`: the greatest power of ten divides as long as it is not enough, which
happens at most three times because the quotient is zero by then. -/
def divPower? (x : Binary64) (k : Nat) : Option Binary64 :=
  let times := (k - 1) / greatestPower
  (divGreatest? x (min times 3)).bind fun y =>
    (powerOfTen? (k - times * greatestPower)).bind y.div?

/-- The product `x * 10 ^ k`, unless that is too large for the format. -/
def scale? (x : Binary64) (k : Int) : Option Binary64 :=
  if 0 ≤ k then
    if k ≤ greatestPower then (powerOfTen? k.toNat).bind x.mul?
    else if x.mantissa = 0 then some x else none
  else divPower? x (-k).toNat

/-! ### Decimal digits -/

/-- A positive decimal: the integer of its digits times a power of ten. -/
structure Decimal where
  /-- The digits, as one integer. -/
  digits : Nat
  /-- The power of ten that they count. -/
  power : Int
  deriving DecidableEq, Repr

/-- A ratio over `10 ^ k`, as numerator and denominator. -/
def overPower (n d : Nat) (k : Int) : Nat × Nat :=
  if 0 ≤ k then (n, d * Nat.pow 10 k.toNat) else (n * Nat.pow 10 (-k).toNat, d)

/-- The greatest `k` with `10 ^ k ≤ n / d`, for positive `n` and `d`. -/
def log10Ratio (n d : Nat) : Int :=
  if d ≤ n then ((Nat.toDigits 10 (n / d)).length : Int) - 1
  else
    Int.negOfNat (((List.range 330).find? fun k => d ≤ n * Nat.pow 10 k).getD 330)

/-- Whether `c * 10 ^ k` reads back as a number: the doubled distances to its neighbours bound
what does, the ends counting for an even mantissa. -/
def readsBack (x : Binary64) (c : Nat) (k : Int) : Bool :=
  let (n, d) := overPower x.numerator x.denominator k
  let (g, h) := overPower (Nat.pow 2 x.exponent.toNat) x.denominator k
  let even := x.mantissa % 2 == 0
  let narrow := x.mantissa == Nat.pow 2 (precision - 1) && leastExponent < x.exponent
  let value := 4 * n * h
  let point := 4 * c * d * h
  let up := 2 * g * d
  let down := if narrow then g * d else 2 * g * d
  if value ≤ point then (if even then point ≤ value + up else point < value + up)
  else if even then value ≤ point + down else value < point + down

/-- The nearest decimal over `10 ^ k` that reads back, of the two around the number. -/
def nearestAt? (x : Binary64) (k : Int) : Option Decimal :=
  let (n, d) := overPower x.numerator x.denominator k
  let low := n / d
  let twice := 2 * (n % d)
  let nearFirst := if twice < d ∨ (twice = d ∧ low % 2 = 0) then [low, low + 1] else [low + 1, low]
  (nearFirst.find? fun c => readsBack x c k).map fun c => ⟨c, k⟩

/-- The fewest digits that read back as a positive number, the nearest ones of these. -/
def shortest (x : Binary64) : Decimal :=
  let top := log10Ratio x.numerator x.denominator
  ((List.range 17).findSome? fun i : Nat => nearestAt? x (top - (i : Int))).getD ⟨0, 0⟩

/-! ### Text -/

/-- How decimals are written. -/
structure Style where
  /-- A number below `10 ^ above` is written without an exponent. -/
  above : Int
  /-- So is one from `10 ^ below` on. -/
  below : Int

/-- Numbers from `10 ^ -5` to below `10 ^ 16` are written without an exponent. -/
def style : Style := ⟨16, -5⟩

/-- Drops the zeros at the end of the digits. -/
def Decimal.trimmed (x : Decimal) : Decimal :=
  let ds := Nat.toDigits 10 x.digits
  let zeros := (ds.reverse.takeWhile (· == '0')).length
  if x.digits = 0 then ⟨0, 0⟩ else ⟨x.digits / Nat.pow 10 zeros, x.power + zeros⟩

/-- The text of an exponent, always with its sign. -/
def exponentChars (e : Int) : List Char :=
  if 0 ≤ e then '+' :: (toString e).toList else (toString e).toList

/-- The text of a positive decimal: digits around a point, or one digit in front of the point and
an exponent. -/
def Decimal.chars (style : Style) (x : Decimal) : List Char :=
  let ds := Nat.toDigits 10 x.digits
  let point : Int := ds.length + x.power
  if style.below < point ∧ point ≤ style.above then
    if 0 ≤ x.power then ds ++ List.replicate x.power.toNat '0' ++ ['.', '0']
    else if 0 < point then ds.take point.toNat ++ '.' :: ds.drop point.toNat
    else '0' :: '.' :: (List.replicate (-point).toNat '0' ++ ds)
  else
    let exponent := exponentChars (point - 1)
    match ds with
    | [] => []
    | [d] => d :: 'e' :: exponent
    | d :: more => d :: '.' :: (more ++ 'e' :: exponent)

/-- The decimal text of a number. -/
def text (x : Binary64) : String :=
  if x.mantissa = 0 then "0.0" else String.ofList (x.shortest.trimmed.chars style)

end Binary64

end CallMigration
