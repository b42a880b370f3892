import Bytecode.Text.Utf8

/-!
# Texts of any bytes

A text may be written by bytes that spell no characters.  Such a byte is kept as
a *stray*, one of 128 characters that are set aside for this; a character that
is itself set aside is kept as the strays of its bytes.  So every byte list is
the written form of a text, `encode_decode`, and a text of characters that is
kept in this way is shown as what it was, `shown_ofPlain`.

Who reads such a text without looking for mistakes takes a *cluster* for a
character: a byte that begins one with all bytes behind it that go on, or any
other byte alone.
-/

namespace Bytecode.Text

/-- Whether a character is one of those that are set aside. -/
def isStray (c : Char) : Bool := 0x10f780 ≤ c.toNat && c.toNat ≤ 0x10f7ff

/-- The character that a byte above the ASCII ones is kept as. -/
def stray (b : UInt8) : Char := Char.ofNat (0x10f700 + b.toNat)

/-- The byte that is kept as a character. -/
def strayByte (c : Char) : UInt8 := UInt8.ofNat (c.toNat - 0x10f700)

/-- The bytes that a character of a text stands for. -/
def bytesOf (c : Char) : List UInt8 :=
  if isStray c then [strayByte c] else String.utf8EncodeChar c

/-- Whether some bytes of a text spell no characters. -/
def hasStrays (s : String) : Bool := s.toList.any isStray

/-- The bytes that write a text. -/
def encode (s : String) : List UInt8 :=
  if hasStrays s then s.toList.flatMap bytesOf else utf8 s

/-- What a piece of a byte list is kept as. -/
def kept : Char ⊕ UInt8 → List Char
  | .inl c => if isStray c then (String.utf8EncodeChar c).map stray else [c]
  | .inr b => [stray b]

/-- The text that bytes write. -/
def decode (bytes : List UInt8) : String :=
  let slow := String.ofList ((chunks bytes).flatMap kept)
  match ofUtf8? bytes with
  | some s => if hasStrays s then slow else s
  | none => slow

theorem toNat_stray (b : UInt8) : (stray b).toNat = 0x10f700 + b.toNat := by
  have hb := b.toNat_lt
  have hv : (0x10f700 + b.toNat).isValidChar := by
    simp only [Nat.isValidChar]
    omega
  rw [stray, Char.ofNat, dif_pos hv]
  rfl

theorem strayByte_stray (b : UInt8) : strayByte (stray b) = b := by
  rw [strayByte, toNat_stray, Nat.add_sub_cancel_left]
  exact ofNat_of_toNat rfl

theorem isStray_stray {b : UInt8} (h : ¬ b < 0x80) :
    isStray (stray b) = true := by
  have hb := b.toNat_lt
  have hl : 128 ≤ b.toNat := by
    have := UInt8.le_iff_toNat_le.mp (UInt8.not_lt.mp h)
    simpa using this
  simp only [isStray, toNat_stray, Bool.and_eq_true, decide_eq_true_eq]
  omega

theorem bytesOf_stray {b : UInt8} (h : ¬ b < 0x80) :
    bytesOf (stray b) = [b] := by
  simp [bytesOf, isStray_stray h, strayByte_stray]

/-- A character that is set aside is written by bytes above the ASCII ones. -/
theorem not_ascii_of_isStray {c : Char} (h : isStray c = true) :
    ∀ b ∈ String.utf8EncodeChar c, ¬ b < 0x80 := by
  simp only [isStray, Bool.and_eq_true, decide_eq_true_eq] at h
  have hv : c.val.toNat = c.toNat := rfl
  have e1 : ¬ c.toNat ≤ 127 := by omega
  have e2 : ¬ c.toNat ≤ 2047 := by omega
  have e3 : ¬ c.toNat ≤ 65535 := by omega
  simp only [String.utf8EncodeChar, hv, e1, e2, e3, if_false]
  intro b hb hlt
  have hlt := UInt8.lt_iff_toNat_lt.mp hlt
  simp only [List.mem_cons, List.not_mem_nil, or_false] at hb
  rcases hb with rfl | rfl | rfl | rfl <;> simp at hlt <;> omega

/-- A byte that begins no character is no ASCII one. -/
theorem not_ascii_of_firstChar? {b : UInt8} {rest : List UInt8}
    (h : firstChar? (b :: rest) = none) : ¬ b < 0x80 := by
  intro hb
  have hlt := UInt8.lt_iff_toNat_lt.mp hb
  have hv : b.toNat.isValidChar := by
    simp only [Nat.isValidChar]
    simp at hlt
    omega
  simp [firstChar?, hb, scalar?, hv] at h

theorem flatMap_stray {bytes : List UInt8} (h : ∀ b ∈ bytes, ¬ b < 0x80) :
    (bytes.map stray).flatMap bytesOf = bytes := by
  induction bytes with
  | nil => rfl
  | cons b rest ih =>
      simp only [List.map_cons, List.flatMap_cons,
        bytesOf_stray (h b List.mem_cons_self),
        ih fun x hx => h x (List.mem_cons_of_mem _ hx)]
      rfl

theorem flatMap_kept_chunks (bytes : List UInt8) :
    ((chunks bytes).flatMap kept).flatMap bytesOf = bytes := by
  have hkept : ((chunks bytes).flatMap kept).flatMap bytesOf =
      (chunks bytes).flatMap spelled := by
    induction bytes using chunks.induct with
    | case1 => simp [chunks]
    | case2 b rest c n h ih =>
        rw [chunks, h]
        simp only [List.flatMap_cons, List.flatMap_append, ih, spelled, kept]
        cases hc : isStray c with
        | true => simp [flatMap_stray (not_ascii_of_isStray hc)]
        | false => simp [bytesOf, hc]
    | case3 b rest h ih =>
        rw [chunks, h]
        simp [ih, spelled, kept, bytesOf_stray (not_ascii_of_firstChar? h)]
  rw [hkept, flatMap_chunks]

/-- Every byte list is the written form of the text that it writes. -/
theorem encode_decode (bytes : List UInt8) : encode (decode bytes) = bytes := by
  have hslow : encode (String.ofList ((chunks bytes).flatMap kept)) =
      bytes := by
    have h := flatMap_kept_chunks bytes
    generalize (chunks bytes).flatMap kept = cs at h
    unfold encode hasStrays
    simp only [String.toList_ofList]
    split
    · exact h
    · rename_i hs
      have hplain : cs.flatMap bytesOf = cs.flatMap String.utf8EncodeChar := by
        simp only [List.flatMap]
        congr 1
        apply List.map_congr_left
        intro c hc
        have hno : isStray c = false := by
          cases hc' : isStray c with
          | false => rfl
          | true => exact absurd (List.any_eq_true.mpr ⟨c, hc, hc'⟩) hs
        simp [bytesOf, hno]
      rw [hplain] at h
      simpa [utf8, String.toUTF8, List.utf8Encode] using h
  unfold decode
  split
  · rename_i s hs
    split
    · exact hslow
    · rename_i hno
      simp only [ofUtf8?, String.fromUTF8?] at hs
      split at hs
      · simp only [Option.some.injEq] at hs
        subst hs
        rw [encode, if_neg hno]
        simp [utf8, String.toUTF8, String.fromUTF8]
      · cases hs
  · exact hslow

/-- A text of characters as one of bytes. -/
def ofPlain (s : String) : String := if hasStrays s then decode (utf8 s) else s

/-- A text put together from others; bytes that have come together may spell
characters. -/
def settled (s : String) : String :=
  if hasStrays s then decode (encode s) else s

/-- The characters of bytes; what is none is shown by the replacement
character. -/
def legible (bytes : List UInt8) : String :=
  (ofUtf8? bytes).getD (String.ofList ((chunks bytes).map fun
    | .inl c => c
    | .inr _ => Char.ofNat 0xfffd))

/-- A text as it is shown. -/
def shown (s : String) : String := if hasStrays s then legible (encode s) else s

/-- A text of characters is written by its bytes. -/
theorem encode_ofPlain (s : String) : encode (ofPlain s) = utf8 s := by
  unfold ofPlain
  split
  · exact encode_decode (utf8 s)
  · next hs => rw [encode, if_neg hs]

/-- A text of characters is shown as what it was. -/
theorem shown_ofPlain (s : String) : shown (ofPlain s) = s := by
  rw [shown, encode_ofPlain]
  split
  · rw [legible, ofUtf8?_utf8, Option.getD_some]
  · next hs =>
      have hbytes := encode_ofPlain s
      rw [encode, if_neg hs] at hbytes
      exact utf8_injective hbytes

theorem ofPlain_injective {s t : String} (h : ofPlain s = ofPlain t) :
    s = t := by
  rw [← shown_ofPlain s, h, shown_ofPlain]

/-- How many bytes write a text. -/
def size (s : String) : Nat :=
  if hasStrays s then (encode s).length else s.utf8ByteSize

/-- Whether a byte goes on with a character. -/
def continues (b : UInt8) : Bool := 0x80 ≤ b && b < 0xc0

/-- Whether a character is kept for a byte that goes on with another one. -/
def isTrailing (c : Char) : Bool := isStray c && continues (strayByte c)

/-- How many bytes of a text begin a character. -/
def width (s : String) : Nat :=
  if hasStrays s then ((encode s).filter fun b => !continues b).length
  else s.length

/-- The clusters of a text. -/
def clusters (s : List Char) : List (List Char) :=
  match s with
  | [] => []
  | c :: rest =>
    if c.toNat < 0x80 || isTrailing c then [c] :: clusters rest
    else
      (c :: rest.takeWhile isTrailing) :: clusters (rest.dropWhile isTrailing)
termination_by s.length
decreasing_by
  · simp
  · have := (List.dropWhile_sublist isTrailing (l := rest)).length_le
    simp only [List.length_cons]
    omega

/-- The bytes that write a number as if it were a character. -/
def bytesOfNumber (n : Nat) : List UInt8 :=
  let tail (n : Nat) : UInt8 := UInt8.ofNat (0x80 + n % 64)
  if n < 0x80 then [UInt8.ofNat n]
  else if n < 0x800 then [UInt8.ofNat (0xc0 + n / 64), tail n]
  else if n < 0x10000 then
    [UInt8.ofNat (0xe0 + n / 4096), tail (n / 64), tail n]
  else [UInt8.ofNat (0xf0 + n / 262144 % 8), tail (n / 4096),
    tail (n / 64), tail n]

/-- The number that the bytes of a cluster spell: the bits of the first byte,
and six of each that follows. -/
def numberOf (cluster : List UInt8) : Nat :=
  match cluster with
  | [] => 0
  | b :: rest =>
    let first := b.toNat
    if first < 0xc0 then first
    else
      let bits :=
        if first < 0xe0 then first - 0xc0 else if first < 0xf0 then first - 0xe0
        else if first < 0xf8 then first - 0xf0
          else if first < 0xfc then first - 0xf8
        else if first < 0xfe then first - 0xfc else 0
      let n :=
        rest.foldl (fun n b => (64 * n + (b.toNat - 0x80)) % 0x100000000) bits
      if n < 0x80 || (0xd800 ≤ n && n < 0xe000) || n / 2 = 0x7fff then 0xfffd
      else n

/-- The character that a cluster is taken for; one of those that are set aside
if its number is above those of all characters. -/
def characterOf (cluster : List Char) : Char :=
  let plain (n : Nat) : Char :=
    if n.isValidChar then Char.ofNat n else Char.ofNat (0x10f780 + n % 0x80)
  match cluster with
  | [c] =>
    if isStray c then plain (numberOf [strayByte c])
    else if c.toNat = 0xfffe || c.toNat = 0xffff then Char.ofNat 0xfffd
    else c
  | cs => plain (numberOf (cs.flatMap bytesOf))

/-- The characters that a text is taken for. -/
def taken (s : String) : String :=
  if s.toList.any fun c => isStray c || c.toNat = 0xfffe ||
      c.toNat = 0xffff then
    String.ofList ((clusters s.toList).map characterOf)
  else s

end Bytecode.Text
