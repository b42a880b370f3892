/-!
# UTF-8 byte sequences

Reading one character at the head of a byte list, by the strict rules: no
overlong forms, no surrogates, nothing above U+10FFFF.  Main statement:
`flatMap_chunks`, cutting a byte list into characters loses nothing.
-/

namespace Bytecode.Text

/-- The bytes of a text. -/
def utf8 (s : String) : List UInt8 := s.toUTF8.data.toList

/-- A continuation byte's six payload bits. -/
def continuation? (b : UInt8) : Option Nat :=
  if 0x80 ≤ b && b < 0xc0 then some (b.toNat - 0x80) else none

/-- A scalar value as a character, if it is at least `least` and no
surrogate. -/
def scalar? (least n : Nat) : Option Char :=
  if h : n.isValidChar then
    if least ≤ n then some ⟨n.toUInt32, by
      have hlt : n < UInt32.size := by
        rcases h with h | h
        · exact Nat.lt_trans h (by decide)
        · exact Nat.lt_trans h.2 (by decide)
      simpa [UInt32.isValidChar, Nat.toUInt32, UInt32.toNat_ofNat_of_lt' hlt]
        using h⟩
    else none
  else none

/-- The character at the head of a byte list and how many bytes it takes. -/
def firstChar? : List UInt8 → Option (Char × Nat)
  | [] => none
  | b :: rest =>
    if b < 0x80 then (scalar? 0 b.toNat).map (·, 1)
    else if 0xc2 ≤ b && b < 0xe0 then
      match rest with
      | b1 :: _ => do
        let x ← continuation? b1
        let c ← scalar? 0x80 ((b.toNat - 0xc0) * 64 + x)
        return (c, 2)
      | _ => none
    else if 0xe0 ≤ b && b < 0xf0 then
      match rest with
      | b1 :: b2 :: _ => do
        let x ← continuation? b1
        let y ← continuation? b2
        let c ← scalar? 0x800 (((b.toNat - 0xe0) * 64 + x) * 64 + y)
        return (c, 3)
      | _ => none
    else if 0xf0 ≤ b && b < 0xf5 then
      match rest with
      | b1 :: b2 :: b3 :: _ => do
        let x ← continuation? b1
        let y ← continuation? b2
        let z ← continuation? b3
        let c ← scalar? 0x10000
          ((((b.toNat - 0xf0) * 64 + x) * 64 + y) * 64 + z)
        return (c, 4)
      | _ => none
    else none

/-- A byte list cut into characters and, where none begins, single stray
bytes. -/
def chunks (bytes : List UInt8) : List (Char ⊕ UInt8) :=
  match bytes with
  | [] => []
  | b :: rest =>
    match firstChar? (b :: rest) with
    | some (c, n) => .inl c :: chunks (rest.drop (n - 1))
    | none => .inr b :: chunks rest
termination_by bytes.length
decreasing_by
  · simp only [List.length_drop, List.length_cons]
    omega
  · simp

/-- A scalar value is the number of its character. -/
theorem toNat_scalar {least n : Nat} {c : Char} (h : scalar? least n = some c) :
    c.toNat = n ∧ least ≤ n ∧ n.isValidChar := by
  unfold scalar? at h
  split at h
  · rename_i hv
    split at h
    · rename_i hl
      have hlt : n < 4294967296 := by
        simp only [Nat.isValidChar] at hv
        omega
      simp only [Option.some.injEq] at h
      subst h
      exact ⟨by simp [Char.toNat, Nat.toUInt32, Nat.mod_eq_of_lt hlt], hl, hv⟩
    · cases h
  · cases h

/-- A continuation byte is its payload and a mark. -/
theorem continuation_eq {b : UInt8} {x : Nat} (h : continuation? b = some x) :
    b.toNat = x + 128 ∧ x < 64 := by
  unfold continuation? at h
  split at h
  · rename_i hb
    simp only [Bool.and_eq_true, decide_eq_true_eq] at hb
    simp only [Option.some.injEq] at h
    have h1 := UInt8.le_iff_toNat_le.mp hb.1
    have h2 := UInt8.lt_iff_toNat_lt.mp hb.2
    simp at h1 h2
    omega
  · cases h

/-- A byte is the one with its number. -/
theorem ofNat_of_toNat {b : UInt8} {n : Nat} (h : b.toNat = n) :
    UInt8.ofNat n = b := by
  subst h; simp

/-- The bytes that were read as a character are those that write it. -/
theorem firstChar?_spell {bytes : List UInt8} {c : Char} {n : Nat}
    (h : firstChar? bytes = some (c, n)) :
    String.utf8EncodeChar c ++ bytes.drop n = bytes ∧ 0 < n := by
  unfold firstChar? at h
  split at h
  · cases h
  · rename_i b rest
    split at h
    · rename_i hb
      have hb := UInt8.lt_iff_toNat_lt.mp hb
      simp only [Option.map_eq_some_iff, Prod.mk.injEq] at h
      obtain ⟨c', hc, rfl, rfl⟩ := h
      have hc := toNat_scalar hc
      have : c'.val.toNat = b.toNat := hc.1
      simp at hb
      have h7 : b.toNat ≤ 127 := by omega
      simp [String.utf8EncodeChar, this, h7]
    · split at h
      · rename_i hb
        simp only [Bool.and_eq_true, decide_eq_true_eq] at hb
        have h1 := UInt8.le_iff_toNat_le.mp hb.1
        have h2 := UInt8.lt_iff_toNat_lt.mp hb.2
        simp at h1 h2
        split at h
        · rename_i b1 more
          simp only [Option.bind_eq_bind, Option.bind_eq_some_iff,
            Option.pure_def, Option.some.injEq, Prod.mk.injEq] at h
          obtain ⟨x, hx, c', hc, rfl, rfl⟩ := h
          have hx := continuation_eq hx
          have hc := toNat_scalar hc
          have hv : c'.val.toNat = (b.toNat - 0xc0) * 64 + x := hc.1
          have e1 : ¬ (b.toNat - 0xc0) * 64 + x ≤ 127 := by omega
          have e2 : (b.toNat - 0xc0) * 64 + x ≤ 2047 := by omega
          have e3 : UInt8.ofNat (((b.toNat - 0xc0) * 64 + x) / 64 % 32 + 192) =
              b := ofNat_of_toNat (by omega)
          have e4 : UInt8.ofNat (((b.toNat - 0xc0) * 64 + x) % 64 + 128) = b1 :=
            ofNat_of_toNat (by omega)
          simp only [String.utf8EncodeChar, hv, e1, e2, e3, e4, if_true,
            if_false]
          simp
        · cases h
      · split at h
        · rename_i hb
          simp only [Bool.and_eq_true, decide_eq_true_eq] at hb
          have h1 := UInt8.le_iff_toNat_le.mp hb.1
          have h2 := UInt8.lt_iff_toNat_lt.mp hb.2
          simp at h1 h2
          split at h
          · rename_i b1 b2 more
            simp only [Option.bind_eq_bind, Option.bind_eq_some_iff,
              Option.pure_def, Option.some.injEq, Prod.mk.injEq] at h
            obtain ⟨x, hx, y, hy, c', hc, rfl, rfl⟩ := h
            have hx := continuation_eq hx
            have hy := continuation_eq hy
            have hc := toNat_scalar hc
            generalize hn : ((b.toNat - 0xe0) * 64 + x) * 64 + y = v at hc
            have hv : c'.val.toNat = v := hc.1
            have e1 : ¬ v ≤ 127 := by omega
            have e2 : ¬ v ≤ 2047 := by omega
            have e3 : v ≤ 65535 := by omega
            have e4 : UInt8.ofNat (v / 4096 % 16 + 224) = b :=
              ofNat_of_toNat (by omega)
            have e5 : UInt8.ofNat (v / 64 % 64 + 128) = b1 :=
              ofNat_of_toNat (by omega)
            have e6 : UInt8.ofNat (v % 64 + 128) = b2 :=
              ofNat_of_toNat (by omega)
            simp only [String.utf8EncodeChar, hv, e1, e2, e3, e4, e5, e6,
              if_true, if_false]
            simp
          · cases h
        · split at h
          · rename_i hb
            simp only [Bool.and_eq_true, decide_eq_true_eq] at hb
            have h1 := UInt8.le_iff_toNat_le.mp hb.1
            have h2 := UInt8.lt_iff_toNat_lt.mp hb.2
            simp at h1 h2
            split at h
            · rename_i b1 b2 b3 more
              simp only [Option.bind_eq_bind, Option.bind_eq_some_iff,
                Option.pure_def, Option.some.injEq, Prod.mk.injEq] at h
              obtain ⟨x, hx, y, hy, z, hz, c', hc, rfl, rfl⟩ := h
              have hx := continuation_eq hx
              have hy := continuation_eq hy
              have hz := continuation_eq hz
              have hc := toNat_scalar hc
              generalize hn :
                (((b.toNat - 0xf0) * 64 + x) * 64 + y) * 64 + z = v at hc
              have hv : c'.val.toNat = v := hc.1
              have e1 : ¬ v ≤ 127 := by omega
              have e2 : ¬ v ≤ 2047 := by omega
              have e3 : ¬ v ≤ 65535 := by omega
              have e4 : UInt8.ofNat (v / 262144 % 8 + 240) = b :=
                ofNat_of_toNat (by omega)
              have e5 : UInt8.ofNat (v / 4096 % 64 + 128) = b1 :=
                ofNat_of_toNat (by omega)
              have e6 : UInt8.ofNat (v / 64 % 64 + 128) = b2 :=
                ofNat_of_toNat (by omega)
              have e7 : UInt8.ofNat (v % 64 + 128) = b3 :=
                ofNat_of_toNat (by omega)
              simp only [String.utf8EncodeChar, hv, e1, e2, e3, e4, e5, e6, e7,
                if_false]
              simp
            · cases h
          · cases h

/-- The bytes of a piece of a byte list. -/
def spelled : Char ⊕ UInt8 → List UInt8
  | .inl c => String.utf8EncodeChar c
  | .inr b => [b]

theorem flatMap_chunks (bytes : List UInt8) :
    (chunks bytes).flatMap spelled = bytes := by
  induction bytes using chunks.induct with
  | case1 => simp [chunks]
  | case2 b rest c n h ih =>
      have ⟨hs, hn⟩ := firstChar?_spell h
      rw [chunks, h]
      simp only [List.flatMap_cons, spelled, ih]
      cases n with
      | zero => omega
      | succ n => simpa using hs
  | case3 b rest h ih =>
      rw [chunks, h]
      simp [spelled, ih]

/-- The text a byte list spells, if it is UTF-8 throughout. -/
def ofUtf8? (bytes : List UInt8) : Option String :=
  String.fromUTF8? ⟨bytes.toArray⟩

/-- The bytes of a text spell it. -/
theorem ofUtf8?_utf8 (s : String) : ofUtf8? (utf8 s) = some s := by
  rw [ofUtf8?, utf8, String.fromUTF8?]
  exact dif_pos s.isValidUTF8

theorem utf8_injective {s t : String} (h : utf8 s = utf8 t) : s = t := by
  have hs := ofUtf8?_utf8 s
  rw [h, ofUtf8?_utf8] at hs
  exact (Option.some.inj hs).symm

end Bytecode.Text
