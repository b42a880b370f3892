/-!
# Words and bytes

The numbers that fit in machine words of fixed width, and such numbers as bytes,
least significant byte first or last.  Main statement: `ofLittle_little`, a
number that fits its width reads back.
-/

namespace Bytecode.Word

/-- How many values a word of 32 bits has. -/
def size32 : Nat := 0x100000000

/-- How many values a word of 64 bits has. -/
def size64 : Nat := 0x10000000000000000

/-- The least signed number of 64 bits. -/
def minSigned64 : Int := -0x8000000000000000

/-- The greatest signed number of 64 bits. -/
def maxSigned64 : Int := 0x7fffffffffffffff

/-- Whether a number fits in a signed word of 64 bits. -/
def fitsSigned64 (n : Int) : Bool := minSigned64 ≤ n && n ≤ maxSigned64

end Bytecode.Word

namespace Bytecode.Bytes

/-- The `width` low bytes of `n`, least significant first. -/
def little : Nat → Nat → List UInt8
  | 0, _ => []
  | width + 1, n => UInt8.ofNat (n % 256) :: little width (n / 256)

/-- The number whose bytes are given, least significant first. -/
def ofLittle : List UInt8 → Nat
  | [] => 0
  | b :: rest => b.toNat + 256 * ofLittle rest

/-- The `width` low bytes of `n`, most significant first. -/
def big (width n : Nat) : List UInt8 := (little width n).reverse

/-- The number whose bytes are given, most significant first. -/
def ofBig (bytes : List UInt8) : Nat := ofLittle bytes.reverse

@[simp] theorem length_little (width n : Nat) :
    (little width n).length = width := by
  induction width generalizing n with
  | zero => rfl
  | succ width ih => simp [little, ih]

/-- How many numbers fit in `width` bytes. -/
def capacity : Nat → Nat
  | 0 => 1
  | width + 1 => 256 * capacity width

theorem ofLittle_little {width n : Nat} (h : n < capacity width) :
    ofLittle (little width n) = n := by
  induction width generalizing n with
  | zero =>
      rw [capacity] at h
      simp only [little, ofLittle]
      omega
  | succ width ih =>
      have hdiv : n / 256 < capacity width := by
        rw [capacity] at h
        omega
      have hmod : n % 256 < 256 := Nat.mod_lt _ (by decide)
      simp only [little, ofLittle, ih hdiv, UInt8.toNat_ofNat', Nat.reducePow,
        Nat.mod_eq_of_lt hmod]
      omega

/-- The first `width` bytes and what follows, if there are that many. -/
def split? (width : Nat) (bytes : List UInt8) :
    Option (List UInt8 × List UInt8) :=
  let front := bytes.take width
  if front.length < width then none else some (front, bytes.drop width)

end Bytecode.Bytes
