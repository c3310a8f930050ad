/-
# The shortest decimal of a binary fraction

A double is a number `m · 2^q`.  Among the decimals that round to it, the shortest one is chosen;
of two shortest ones the nearer, and of two equally near ones the even one.

All comparisons are exact: for a fixed double, `unit` turns both sides into natural numbers.
-/

namespace ApiTypings.Decimal

/-! ## Powers -/

/-- A power of two. -/
def twoTo (n : Nat) : Nat := Nat.pow 2 n

/-- A power of ten. -/
def tenTo (n : Nat) : Nat := Nat.pow 10 n

/-! ## Doubles as fractions -/

/-- A finite double without its sign: the value is `value / unit`, and the numbers between
`low / unit` and `high / unit` are nearer to it than to any other double. -/
structure Span where
  value : Nat
  low : Nat
  high : Nat
  unit : Nat
  /-- Whether the ends round to the double too. -/
  closed : Bool

/-- The span of the double with the given bits, the sign ignored. -/
def Span.ofBits (bits : UInt64) : Span :=
  let exponent := ((bits >>> 52) &&& 0x7FF).toNat
  let fraction := (bits &&& 0xFFFFFFFFFFFFF).toNat
  let m := if exponent = 0 then fraction else twoTo 52 + fraction
  -- The exponent of a quarter of the last binary place is `e - 1077`.
  let e := if exponent = 0 then 1 else exponent
  let up := twoTo (e - 1077)
  let below := if fraction = 0 && exponent > 1 then 1 else 2
  { value := 4 * m * up
    low := (4 * m - below) * up
    high := (4 * m + 2) * up
    unit := twoTo (1077 - e)
    closed := m % 2 == 0 }

/-! ## Decimals -/

/-- The decimal `digits · 10^exponent`. -/
structure Dec where
  digits : Nat
  exponent : Int
  deriving DecidableEq, Repr

/-- A decimal times `unit`, as a numerator and a denominator. -/
def Dec.scaled (d : Dec) (unit : Nat) : Nat × Nat :=
  (d.digits * tenTo d.exponent.toNat * unit, tenTo (-d.exponent).toNat)

/-- Whether a decimal rounds to the double of a span. -/
def Span.contains (s : Span) (d : Dec) : Bool :=
  let (num, den) := d.scaled s.unit
  if s.closed then s.low * den ≤ num && num ≤ s.high * den
  else s.low * den < num && num < s.high * den

/-- How far a decimal is from the double of a span, over the denominator of the decimal. -/
def Span.distance (s : Span) (d : Dec) : Nat :=
  let (num, den) := d.scaled s.unit
  (num - s.value * den) + (s.value * den - num)

/-- The place in front of the first digit: the least `k` of the range with `value / unit < 10^k`. -/
def Span.scale (s : Span) : Int :=
  ((List.range 700).map fun (i : Nat) => (i : Int) - 350).find? (fun k =>
    s.value * tenTo (-k).toNat < s.unit * tenTo k.toNat) |>.getD 350

/-- The decimal of `count` digits that rounds to the double, if there is one. -/
def Span.ofLength? (s : Span) (count : Nat) : Option Dec :=
  let exponent := s.scale - count
  let floor := s.value * tenTo (-exponent).toNat / (s.unit * tenTo exponent.toNat)
  let down : Dec := ⟨floor, exponent⟩
  let up : Dec := ⟨floor + 1, exponent⟩
  match s.contains down, s.contains up with
  | true, true =>
    if s.distance down < s.distance up then some down
    else if s.distance up < s.distance down then some up
    else if floor % 2 = 0 then some down else some up
  | true, false => some down
  | false, true => some up
  | false, false => none

/-- The digits of a number without its trailing zeros, which are counted in the exponent. -/
def stripZeros (fuel : Nat) (d : Dec) : Dec :=
  match fuel with
  | 0 => d
  | fuel + 1 =>
    if d.digits ≠ 0 ∧ d.digits % 10 = 0 then stripZeros fuel ⟨d.digits / 10, d.exponent + 1⟩ else d

/-- The shortest decimal that rounds to the double of a span; zero is `0 · 10^0`. -/
def Span.shortest (s : Span) : Dec :=
  if s.value = 0 then ⟨0, 0⟩
  else
    stripZeros 400 <|
      ((List.range' 1 17).findSome? s.ofLength?).getD ⟨s.value / s.unit, 0⟩

/-! ## Text -/

/-- The text of a decimal: positional when the point stands at most sixteen places behind or four
places in front of the first digit, else with an exponent that has a sign.  A positional text has
a digit on both sides of the point. -/
def Dec.text (d : Dec) : String :=
  let digits := Nat.toDigits 10 d.digits
  let point : Int := digits.length + d.exponent
  let zeros (n : Int) := List.replicate n.toNat '0'
  if d.digits = 0 then "0.0"
  else if 0 ≤ d.exponent ∧ point ≤ 16 then
    .ofList (digits ++ zeros d.exponent ++ ".0".toList)
  else if 0 < point ∧ point ≤ 16 then
    .ofList (digits.take point.toNat ++ '.' :: digits.drop point.toNat)
  else if -5 < point ∧ point ≤ 0 then
    .ofList ("0.".toList ++ zeros (-point) ++ digits)
  else
    let tail := digits.drop 1
    .ofList (digits.take 1 ++ (if tail.isEmpty then [] else '.' :: tail)) ++ "e"
      ++ (if 1 < point then "+" else "") ++ toString (point - 1)

/-- The text of a finite double. -/
def floatText (x : Float) : String :=
  (if x.toBits >>> 63 = 1 then "-" else "") ++ (Span.ofBits x.toBits).shortest.text

end ApiTypings.Decimal
