/-!
# Elementary functions

Angles, hyperbolic functions and logarithms, each by a polynomial on a short
range and a rule that leads every argument back to it.  What a double cannot
hold of a reduced argument is kept beside it.
-/

namespace Bytecode.Database

namespace Elementary

/-- The value of a polynomial with given coefficients, the constant one
first. -/
def polynomial (x : Float) : List Float → Float
  | [] => 0.0
  | [c] => c
  | c :: rest => c + x * polynomial x rest

/-- The exponent and the leading digits of a double, without its sign. -/
def high (x : Float) : Nat := x.toBits.toNat / 0x100000000 % 0x80000000

/-- The leading digits of a double. -/
def leading (x : Float) : Float :=
  Float.ofBits (x.toBits &&& 0xffffffff00000000)

/-- The exponent of a double. -/
def exponent (x : Float) : Int := (high x / 0x100000 : Nat) - 1023

/-- Whether a double has a sign, be it zero. -/
def isSigned (x : Float) : Bool := 0x8000000000000000 ≤ x.toBits.toNat

/-- A power of two. -/
def twoTo (k : Int) : Float :=
  Float.ofBits (UInt64.ofNat ((1023 + k).toNat * 0x10000000000000))

/-- What no function gives. -/
def undefined : Float := 0.0 / 0.0

/-- Gives a number the sign of another. -/
def signedAs (x y : Float) : Float := if isSigned x then -y else y

/-! ## Logarithms and exponentials -/

/-- The logarithm of two: its leading digits, and the rest. -/
def ln2 : Float × Float :=
  (6.93147180369123816490e-01, 1.90821492927058770002e-10)

/-- What the logarithm of `1 + f` is beside `f`, as long as `f` is small. -/
def logTail (f : Float) : Float × Float × Float :=
  let s := f / (2.0 + f)
  let z := s * s
  let w := z * z
  let even := w * polynomial w [3.999999999940941908e-01,
    2.222219843214978396e-01, 1.531383769920937332e-01]
  let odd :=
    z * polynomial w [6.666666666666735130e-01, 2.857142874366239149e-01,
      1.818357216161805012e-01, 1.479819860511658591e-01]
  (0.5 * f * f, s, odd + even)

/-- A positive number as a power of two times a number about one. -/
def split (x : Float) : Int × Float :=
  let bits := x.toBits.toNat
  let h := bits / 0x100000000 + (0x3ff00000 - 0x3fe6a09e)
  ((h / 0x100000 : Nat) - 0x3ff, Float.ofBits (UInt64.ofNat
    ((h % 0x100000 + 0x3fe6a09e) * 0x100000000 + bits % 0x100000000)))

/-- The natural logarithm of one more than a number. -/
def logOfSuccessor (x : Float) : Float :=
  if x < -1.0 || x.isNaN then undefined
  else if x == -1.0 then -1.0 / 0.0
  else if x.isInf || high x < 0x3ca00000 then x
  else
    let isNear : Bool :=
      if isSigned x then high x ≤ 0x3fd2bec4 else high x < 0x3fda827a
    let (k, c, f) : Int × Float × Float :=
      if isNear then (0, 0.0, x)
      else
        let u := 1.0 + x
        let (k, r) := split u
        let c :=
          if k < 54 then (if 2 ≤ k then 1.0 - (u - x) else x - (u - 1.0)) / u
          else 0.0
        (k, c, r - 1.0)
    let (half, s, rest) := logTail f
    let dk := Float.ofInt k
    s * (half + rest) + (dk * ln2.2 + c) - half + f + dk * ln2.1

/-- The logarithm to the base ten of a positive number. -/
def decimalLog (x : Float) : Float :=
  if x.isInf || x.isNaN then x
  else if x == 1.0 then 0.0
  else
    let (shift, x) : Int × Float :=
      if high x < 0x100000 then (-54, x * 18014398509481984.0) else (0, x)
    let (k, r) := split x
    let f := r - 1.0
    let (half, s, rest) := logTail f
    let hi := leading (f - half)
    let lo := (f - hi) - half + s * (half + rest)
    let dk := Float.ofInt (k + shift)
    let y := dk * 3.01029995663611771306e-01
    let front := hi * 4.34294481878168880939e-01
    let behind := dk * 3.69423907715893078616e-13 +
      (lo + hi) * 2.50829467116452752298e-11 + lo * 4.34294481878168880939e-01
    let w := y + front
    behind + ((y - w) + front) + w

/-- The exponential less one. -/
def expLessOne (x : Float) : Float :=
  let h := high x
  let isNegative := isSigned x
  if x.isNaN then x
  else if 0x4043687a ≤ h && isNegative then -1.0
  else if 0x4043687a ≤ h && 7.09782712893383973096e+02 < x then 1.0 / 0.0
  else if h < 0x3c900000 then x
  else
    let (k, x, c) : Int × Float × Float :=
      if h ≤ 0x3fd62e42 then (0, x, 0.0)
      else
        let (k, hi, lo) : Int × Float × Float :=
          if h < 0x3ff0a2b2 then
            if isNegative then (-1, x + ln2.1, -ln2.2)
            else (1, x - ln2.1, ln2.2)
          else
            let k := (1.44269504088896338700e+00 * x +
              if isNegative then -0.5 else 0.5).toInt64.toInt
            let t := Float.ofInt k
            (k, x - t * ln2.1, t * ln2.2)
        let y := hi - lo
        (k, y, (hi - y) - lo)
    let half := 0.5 * x
    let square := x * half
    let r := polynomial square [1.0, -3.33333333333331316428e-02,
      1.58730158725481460165e-03, -7.93650757867487942473e-05,
      4.00821782732936239552e-06, -2.01099218183624371326e-07]
    let t := 3.0 - r * half
    let e := square * ((r - t) / (6.0 - x * t))
    if k = 0 then x - (x * e - square)
    else
      let e := x * (e - c) - c - square
      if k = -1 then 0.5 * (x - e) - 0.5
      else if k = 1 then
        if x < -0.25 then -2.0 * (e - (x + 0.5)) else 1.0 + 2.0 * (x - e)
      else if k < 0 || 56 < k then
        let y := x - e + 1.0
        (if k = 1024 then y * 2.0 * twoTo 1023 else y * twoTo k) - 1.0
      else if k < 20 then (x - e + (1.0 - twoTo (-k))) * twoTo k
      else (x - (e + twoTo (-k)) + 1.0) * twoTo k

/-- Half of the exponential of a number that is very large. -/
def halfExp (x sign : Float) : Float :=
  (x - 1416.0996898839683).exp * (sign * twoTo 1021) * twoTo 1021

/-! ## Hyperbolic functions -/

/-- The hyperbolic sine. -/
def sinh (x : Float) : Float :=
  let h := signedAs x 0.5
  let a := x.abs
  if x.isNaN then x
  else if high x < 0x40862e42 then
    let t := expLessOne a
    if high x < 0x3ff00000 - 26 * 0x100000 then x
    else if high x < 0x3ff00000 then h * (2.0 * t - t * t / (t + 1.0))
    else h * (t + t / (t + 1.0))
  else halfExp a (2.0 * h)

/-- The hyperbolic cosine. -/
def cosh (x : Float) : Float :=
  let a := x.abs
  if x.isNaN then x
  else if high x < 0x3ff00000 - 26 * 0x100000 then 1.0
  else if high x < 0x3fe62e42 then
    let t := expLessOne a
    1.0 + t * t / (2.0 * (1.0 + t))
  else if high x < 0x40862e42 then
    let t := a.exp
    0.5 * (t + 1.0 / t)
  else halfExp a 1.0

/-- The hyperbolic tangent. -/
def tanh (x : Float) : Float :=
  let a := x.abs
  signedAs x (
    if 0x3fe193ea < high x then
      if 0x40340000 < high x then 1.0 - 0.0 / a
      else 1.0 - 2.0 / (expLessOne (2.0 * a) + 2.0)
    else if 0x3fd058ae < high x then
      let t := expLessOne (2.0 * a)
      t / (t + 2.0)
    else if 0x00100000 ≤ high x then
      let t := -expLessOne (-2.0 * a)
      t / (2.0 - t)
    else a)

/-- The logarithm of two. -/
def logTwo : Float := 0.693147180559945309417232121458176568

/-- The inverse of the hyperbolic sine. -/
def asinh (x : Float) : Float :=
  let a := x.abs
  let e := exponent x
  signedAs x (
    if 26 ≤ e then a.log + logTwo
    else if 1 ≤ e then (2.0 * a + 1.0 / ((a * a + 1.0).sqrt + a)).log
    else if -26 ≤ e then logOfSuccessor (a + a * a / ((a * a + 1.0).sqrt + 1.0))
    else a)

/-- The inverse of the hyperbolic cosine. -/
def acosh (x : Float) : Float :=
  let e := exponent x
  if e < 1 then
    logOfSuccessor (x - 1.0 + ((x - 1.0) * (x - 1.0) + 2.0 * (x - 1.0)).sqrt)
  else if e < 26 then (2.0 * x - 1.0 / (x + (x * x - 1.0).sqrt)).log
  else x.log + logTwo

/-- The inverse of the hyperbolic tangent. -/
def atanh (x : Float) : Float :=
  let a := x.abs
  let e := exponent x
  signedAs x (
    if e < -32 then a
    else if e < -1 then 0.5 * logOfSuccessor (2.0 * a + 2.0 * a * a / (1.0 - a))
    else 0.5 * logOfSuccessor (2.0 * (a / (1.0 - a))))

/-! ## Angles -/

/-- A quarter turn as two doubles. -/
def quarter : Float × Float :=
  (1.57079632679489655800e+00, 6.12323399573676603587e-17)

/-- How the inverse of the sine leaves a straight line. -/
def arcTail (z : Float) : Float :=
  let p :=
    z * polynomial z [1.66666666666666657415e-01, -3.25565818622400915405e-01,
      2.01212532134862925881e-01, -4.00555345006794114027e-02,
      7.91534994289814532176e-04, 3.47933107596021167570e-05]
  let q :=
    polynomial z [1.0, -2.40339491173441421878e+00, 2.02094576023350569471e+00,
      -6.88283971605453293030e-01, 7.70381505559019352791e-02]
  p / q

/-- The inverse of the sine. -/
def asin (x : Float) : Float :=
  let h := high x
  if x.abs == 1.0 then x * quarter.1
  else if 0x3ff00000 ≤ h then undefined
  else if h < 0x3fe00000 then
    if h < 0x3e500000 && 0x00100000 ≤ h then x else x + x * arcTail (x * x)
  else
    let z := (1.0 - x.abs) * 0.5
    let s := z.sqrt
    let r := arcTail z
    signedAs x (
      if 0x3fef3333 ≤ h then quarter.1 - (2.0 * (s + s * r) - quarter.2)
      else
        let f := leading s
        let c := (z - f * f) / (s + f)
        0.5 * quarter.1 -
          (2.0 * s * r - (quarter.2 - 2.0 * c) - (0.5 * quarter.1 - 2.0 * f)))

/-- The inverse of the cosine. -/
def acos (x : Float) : Float :=
  let h := high x
  if x == 1.0 then 0.0
  else if x == -1.0 then 2.0 * quarter.1
  else if 0x3ff00000 ≤ h then undefined
  else if h < 0x3fe00000 then
    if h ≤ 0x3c600000 then quarter.1
    else quarter.1 - (x - (quarter.2 - x * arcTail (x * x)))
  else if isSigned x then
    let z := (1.0 + x) * 0.5
    let s := z.sqrt
    let w := arcTail z * s - quarter.2
    2.0 * (quarter.1 - (s + w))
  else
    let z := (1.0 - x) * 0.5
    let s := z.sqrt
    let f := leading s
    let c := (z - f * f) / (s + f)
    2.0 * (f + (arcTail z * s + c))

/-- The inverse of the tangent. -/
def atan (x : Float) : Float :=
  let h := high x
  let a := x.abs
  if x.isNaN then x
  else if 0x44100000 ≤ h then signedAs x quarter.1
  else if h < 0x3e400000 then x
  else
    let (base, y) : Option (Float × Float) × Float :=
      if h < 0x3fdc0000 then (none, x)
      else if h < 0x3fe60000 then
        (some (4.63647609000806093515e-01, 2.26987774529616870924e-17),
          (2.0 * a - 1.0) / (2.0 + a))
      else if h < 0x3ff30000 then
        (some (7.85398163397448278999e-01, 3.06161699786838301793e-17),
          (a - 1.0) / (a + 1.0))
      else if h < 0x40038000 then
        (some (9.82793723247329054082e-01, 1.39033110312309984516e-17),
          (a - 1.5) / (1.0 + 1.5 * a))
      else (some quarter, -1.0 / a)
    let z := y * y
    let w := z * z
    let odd :=
      z * polynomial w [3.33333333333329318027e-01, 1.42857142725034663711e-01,
        9.09088713343650656196e-02, 6.66107313738753120669e-02,
        4.97687799461593236017e-02, 1.62858201153657823623e-02]
    let even := w * polynomial w [-1.99999999998764832476e-01,
      -1.11111104054623557880e-01, -7.69187620504482999495e-02,
      -5.83357013379057348645e-02, -3.65315727442169155270e-02]
    match base with
    | none => y - y * (odd + even)
    | some (front, behind) =>
        signedAs x (front - (y * (odd + even) - behind - y))

/-- The angle of a point: its second coordinate comes first. -/
def angle (y x : Float) : Float :=
  let pi : Float := 3.1415926535897931160e+00
  let rest : Float := 1.2246467991473531772e-16
  let ix := high x
  let iy := high y
  if x.isNaN || y.isNaN then undefined
  else if x == 1.0 then atan y
  else if y == 0.0 then if isSigned x then signedAs y pi else y
  else if x == 0.0 then signedAs y (pi / 2.0)
  else if x.isInf then
    if y.isInf then signedAs y (if isSigned x then 3.0 * pi / 4.0 else pi / 4.0)
    else signedAs y (if isSigned x then pi else 0.0)
  else if ix + 64 * 0x100000 < iy || y.isInf then signedAs y (pi / 2.0)
  else
    let z :=
      if isSigned x && iy + 64 * 0x100000 < ix then 0.0 else atan (y / x).abs
    match isSigned x, isSigned y with
    | false, false => z
    | false, true => -z
    | true, false => pi - (z - rest)
    | true, true => (z - rest) - pi

/-- The sum of a series of inverses of odd powers, in units of `one`. -/
def inverseSeries (one base : Nat) : Nat → Nat → Nat → Int → Int → Int
  | 0, _, _, _, sum => sum
  | fuel + 1, power, n, sign, sum =>
    inverseSeries one base fuel (power / (base * base)) (n + 2) (-sign)
      (sum + sign * (power / n : Nat))

/-- The number pi with so many binary digits behind the point, and some more
that do not count. -/
def piDigits (bits : Nat) : Int :=
  let one := Nat.pow 2 bits
  let arc (base : Nat) : Int := inverseSeries one base bits (one / base) 1 1 0
  4 * (4 * arc 5 - arc 239)

/-- An angle with the nearest number of quarter turns taken off, as two doubles;
a very large angle is taken in full. -/
def reducedLarge (x : Float) : Int × Float × Float :=
  let bits := x.toBits.toNat % 0x8000000000000000
  let m : Int := (bits % 0x10000000000000 + 0x10000000000000 : Nat)
  let e : Int := (bits / 0x10000000000000 : Nat) - 1075
  let size := 1280
  let turn := piDigits size / 2
  let value := m * (Nat.pow 2 ((size : Int) + e).toNat : Nat)
  let n := (2 * value + turn) / (2 * turn)
  let rest := value - n * turn
  let toFloat (r : Int) : Float :=
    let length := r.natAbs.log2
    let drop := length - 63
    Float.ofInt (r / (Nat.pow 2 drop : Nat)) * Float.pow 2.0 (Float.ofInt
      ((drop : Int) - 600)) * Float.pow 2.0 (Float.ofInt (600 - (size : Int)))
  let front := toFloat rest
  let fb := front.toBits.toNat % 0x8000000000000000
  let fm : Int := ((fb % 0x10000000000000 + 0x10000000000000) *
    Nat.pow 2 ((fb / 0x10000000000000 : Nat) - 1075 + (size : Int)).toNat : Nat)
  let behind := toFloat (rest - if front < 0 then -fm else fm)
  if isSigned x then (-n, -front, -behind) else (n, front, behind)

/-- An angle with a number of quarter turns taken off, as two doubles. -/
def reduced (x : Float) : Int × Float × Float :=
  let h := high x
  let isNegative := isSigned x
  let near (k : Int) : Int × Float × Float :=
    let f := Float.ofInt k
    let first := f * 1.57079632673412561417e+00
    let second := f * 6.07710050650619224932e-11
    let z := if isNegative then x + first else x - first
    let y := if isNegative then z + second else z - second
    (if isNegative then -k
    else k, y, if isNegative then (z - y) + second else (z - y) - second)
  let medium (_ : Unit) : Int × Float × Float :=
    let big : Float := 6755399441055744.0
    let f := x * 6.36619772367581382433e-01 + big - big
    let r := x - f * 1.57079632673412561417e+00
    let w := f * 6.07710050650619224932e-11
    let bound : Float := 7.85398163397448278999e-01
    let f :=
      if r - w < -bound then f - 1.0 else if bound < r - w then f + 1.0 else f
    let r := x - f * 1.57079632673412561417e+00
    let w := f * 6.07710050650619224932e-11
    let lost (y : Float) : Int :=
      (h / 0x100000 : Nat) - ((high y / 0x100000 : Nat) : Int)
    let again (r : Float) (part tail : Float) : Float × Float :=
      let w := f * part
      let s := r - w
      (s, f * tail - ((r - s) - w))
    let (r, w) := if 16 < lost (r - w) then
        let (r, w) :=
          again r 6.07710050630396597660e-11 2.02226624879595063154e-21
        if 49 < lost (r - w) then
          again r 2.02226624871116645580e-21 8.47842766036889956997e-32
        else (r, w)
      else (r, w)
    let y := r - w
    (f.toInt64.toInt, y, (r - y) - w)
  if h ≤ 0x400f6a7a then
    if h % 0x100000 = 0x921fb then medium ()
    else if h ≤ 0x4002d97c then near 1 else near 2
  else if h ≤ 0x401c463b then
    if h ≤ 0x4015fdbc then if h = 0x4012d97c then medium () else near 3
    else if h = 0x401921fb then medium () else near 4
  else if h < 0x413921fb then medium ()
  else reducedLarge x

/-- The sine of a small angle that is the sum of two doubles. -/
def smallSine (x : Float) (rest : Option Float) : Float :=
  let z := x * x
  let w := z * z
  let first : Float := -1.66666666666666324348e-01
  let r := 8.33333333332248946124e-03 +
    z * (-1.98412698298579493134e-04 + z * 2.75573137070700676789e-06) +
    z * w * (-2.50507602534068634195e-08 + z * 1.58969099521155010221e-10)
  let v := z * x
  match rest with
  | none => x + v * (first + z * r)
  | some y => x - ((z * (0.5 * y - v * r) - y) - v * first)

/-- The cosine of a small angle that is the sum of two doubles. -/
def smallCosine (x y : Float) : Float :=
  let z := x * x
  let w := z * z
  let r := z * (4.16666666666666019037e-02 + z * (-1.38888888888741095749e-03 +
    z * 2.48015872894767294178e-05)) + w * w * (-2.75573143513906633035e-07 +
      z * (2.08757232129817482790e-09 + z * -1.13596475577881948265e-11))
  let half := 0.5 * z
  let w := 1.0 - half
  w + (((1.0 - w) - half) + (z * r - x * y))

/-- The tangent of a small angle that is the sum of two doubles, or else that of
the angle a quarter turn further. -/
def smallTangent (x y : Float) (isFurther : Bool) : Float :=
  let isBig : Bool := 0x3fe59428 ≤ high x
  let isNegative := isSigned x
  let (x, y) : Float × Float :=
    if isBig then
      let (x, y) := if isNegative then (-x, -y) else (x, y)
      ((7.85398163397448278999e-01 - x) + (3.06161699786838301793e-17 - y), 0.0)
    else (x, y)
  let z := x * x
  let w := z * z
  let r := polynomial w [1.33333333333201242699e-01, 2.18694882948595424599e-02,
    3.59207910759131235356e-03, 5.88041240820264096874e-04,
    7.81794442939557092300e-05, -1.85586374855275456654e-05]
  let v :=
    z * polynomial w [5.39682539762260521377e-02, 8.86323982359930005737e-03,
      1.45620945432529025516e-03, 2.46463134818469906812e-04,
      7.14072491382608190305e-05, 2.59073051863633712884e-05]
  let s := z * x
  let r := y + z * (s * (r + v) + y) + s * 3.33333333333334091986e-01
  let w := x + r
  if isBig then
    let s : Float := if isFurther then -1.0 else 1.0
    let v := s - 2.0 * (x + (r - w * w / (w + s)))
    if isNegative then -v else v
  else if !isFurther then w
  else
    let front := leading w
    let v := r - (front - x)
    let a := -1.0 / w
    let b := leading a
    b + a * (1.0 + b * front + b * v)

/-- The sine. -/
def sin (x : Float) : Float :=
  let h := high x
  if 0x7ff00000 ≤ h then undefined
  else if h ≤ 0x3fe921fb then if h < 0x3e500000 then x else smallSine x none
  else
    let (n, y, rest) := reduced x
    match (n % 4).toNat with
    | 0 => smallSine y (some rest)
    | 1 => smallCosine y rest
    | 2 => -smallSine y (some rest)
    | _ => -smallCosine y rest

/-- The cosine. -/
def cos (x : Float) : Float :=
  let h := high x
  if 0x7ff00000 ≤ h then undefined
  else if h ≤ 0x3fe921fb then if h < 0x3e46a09e then 1.0 else smallCosine x 0.0
  else
    let (n, y, rest) := reduced x
    match (n % 4).toNat with
    | 0 => smallCosine y rest
    | 1 => -smallSine y (some rest)
    | 2 => -smallCosine y rest
    | _ => smallSine y (some rest)

/-- The tangent. -/
def tan (x : Float) : Float :=
  let h := high x
  if 0x7ff00000 ≤ h then undefined
  else if h ≤ 0x3fe921fb then
    if h < 0x3e400000 then x else smallTangent x 0.0 false
  else
    let (n, y, rest) := reduced x
    smallTangent y rest (n % 2 = 1)

end Elementary

end Bytecode.Database
