import LocaleLint.Encoding.Utf8

set_option autoImplicit false

namespace LocaleLint.Encoding.Utf8

theorem toNat_ofNat (code : Nat) (valid : code.isValidChar) : (Char.ofNat code).toNat = code := by
  rw [Char.ofNat, dif_pos valid]
  rfl

theorem encodeChar_eq (c : Char) : encodeChar c = String.utf8EncodeChar c := by
  have valid : c.toNat < 0xd800 ∨ 0xdfff < c.toNat ∧ c.toNat < 0x110000 := c.valid
  have lead2 (h : c.toNat < 0x800) : c.toNat / 64 % 32 = c.toNat / 64 := by omega
  have lead3 (h : c.toNat < 0x10000) : c.toNat / 4096 % 16 = c.toNat / 4096 := by omega
  have lead4 : c.toNat / 262144 % 8 = c.toNat / 262144 := by omega
  unfold String.utf8EncodeChar
  rw [show c.val.toNat = c.toNat from rfl]
  simp only [encodeChar, Nat.add_comm]
  grind

theorem encode_eq (text : List Char) : encode text = text.flatMap String.utf8EncodeChar := by
  rw [encode, funext encodeChar_eq]

theorem isTail_iff (b : UInt8) : isTail b = true ↔ 0x80 ≤ b.toNat ∧ b.toNat < 0xc0 := by
  simp [isTail, UInt8.le_iff_toNat_le, UInt8.lt_iff_toNat_lt]

theorem isSecond_iff (lead b : UInt8) :
    isSecond lead b = true ↔ (0x80 ≤ b.toNat ∧ b.toNat < 0xc0) ∧
      (lead.toNat = 0xe0 → 0xa0 ≤ b.toNat) ∧
      (lead.toNat = 0xed → b.toNat < 0xa0) ∧ (lead.toNat = 0xf0 → 0x90 ≤ b.toNat) ∧
      (lead.toNat = 0xf4 → b.toNat < 0x90) := by
  simp only [isSecond, Bool.and_eq_true, Bool.or_eq_true, bne_iff_ne, decide_eq_true_eq, isTail_iff,
    ne_eq, ← UInt8.toNat_inj, UInt8.le_iff_toNat_le, UInt8.lt_iff_toNat_lt, UInt8.toNat_ofNat]
  omega

section
variable (start : Nat) (a b c d : UInt8) (rest : List UInt8)

theorem decodeFrom_one (small : a.toNat < 0x80) :
    decodeFrom start (a :: rest) = (decodeFrom (start + 1) rest).map (Char.ofNat a.toNat :: ·) := by
  rw [decodeFrom.eq_def]
  simp [UInt8.lt_iff_toNat_lt, small]

theorem decodeFrom_two (low : 0xc2 ≤ a.toNat) (high : a.toNat < 0xe0)
    (second : isSecond a b = true) :
    decodeFrom start (a :: b :: rest) = (decodeFrom (start + 2) rest).map (charOf2 a b :: ·) := by
  have notOne : ¬ a.toNat < 0x80 := by omega
  have notBad : ¬ a.toNat < 0xc2 := by omega
  rw [decodeFrom.eq_def]
  simp [UInt8.lt_iff_toNat_lt, notOne, notBad, high, second]

theorem decodeFrom_three (low : 0xe0 ≤ a.toNat) (high : a.toNat < 0xf0)
    (second : isSecond a b = true)
    (third : isTail c = true) :
    decodeFrom start (a :: b :: c :: rest) =
      (decodeFrom (start + 3) rest).map (charOf3 a b c :: ·) := by
  have notOne : ¬ a.toNat < 0x80 := by omega
  have notBad : ¬ a.toNat < 0xc2 := by omega
  have notTwo : ¬ a.toNat < 0xe0 := by omega
  rw [decodeFrom.eq_def]
  simp [UInt8.lt_iff_toNat_lt, notOne, notBad, notTwo, high, second, third]

theorem decodeFrom_four (low : 0xf0 ≤ a.toNat) (high : a.toNat < 0xf5)
    (second : isSecond a b = true)
    (third : isTail c = true) (fourth : isTail d = true) :
    decodeFrom start (a :: b :: c :: d :: rest) =
      (decodeFrom (start + 4) rest).map (charOf4 a b c d :: ·) := by
  have notOne : ¬ a.toNat < 0x80 := by omega
  have notBad : ¬ a.toNat < 0xc2 := by omega
  have notTwo : ¬ a.toNat < 0xe0 := by omega
  have notThree : ¬ a.toNat < 0xf0 := by omega
  rw [decodeFrom.eq_def]
  simp [UInt8.lt_iff_toNat_lt, notOne, notBad, notTwo, notThree, high, second, third, fourth]

end

theorem toNat_octet (base n : Nat) (small : base + n < 256) :
    (UInt8.ofNat (base + n)).toNat = base + n := by
  rw [UInt8.toNat_ofNat']
  omega

theorem toNat_tail (n : Nat) : (UInt8.ofNat (0x80 + n % 64)).toNat = 0x80 + n % 64 :=
  toNat_octet _ _ (by omega)

theorem isTail_tail (n : Nat) : isTail (UInt8.ofNat (0x80 + n % 64)) = true := by
  rw [isTail_iff, toNat_tail]
  omega

theorem decodeFrom_encodeChar (start : Nat) (c : Char) (rest : List UInt8) :
    decodeFrom start (encodeChar c ++ rest) =
      (decodeFrom (start + (encodeChar c).length) rest).map (c :: ·) := by
  have valid : c.toNat < 0xd800 ∨ 0xdfff < c.toNat ∧ c.toNat < 0x110000 := c.valid
  have back (code : Nat) (same : code = c.toNat) : Char.ofNat code = c := by
    rw [same, Char.ofNat_toNat]
  simp only [encodeChar]
  split
  next one =>
    have whole : (UInt8.ofNat c.toNat).toNat = c.toNat := by
      rw [UInt8.toNat_ofNat']
      omega
    rw [List.cons_append, decodeFrom_one _ _ _ (by omega), back _ whole]
    rfl
  split
  next two =>
    have lead := toNat_octet 0xc0 (c.toNat / 64) (by omega)
    have second : isSecond (UInt8.ofNat (0xc0 + c.toNat / 64)) (UInt8.ofNat (0x80 + c.toNat % 64)) =
        true := by
      rw [isSecond_iff, lead, toNat_tail]
      omega
    have char :
      charOf2 (UInt8.ofNat (0xc0 + c.toNat / 64)) (UInt8.ofNat (0x80 + c.toNat % 64)) = c := by
      rw [charOf2, lead, toNat_tail]
      exact back _ (by omega)
    simp only [List.cons_append]
    rw [decodeFrom_two _ _ _ _ (by omega) (by omega) second, char]
    rfl
  split
  next three =>
    have lead := toNat_octet 0xe0 (c.toNat / 4096) (by omega)
    have second : isSecond (UInt8.ofNat (0xe0 + c.toNat / 4096))
        (UInt8.ofNat (0x80 + c.toNat / 64 % 64)) = true := by
      rw [isSecond_iff, lead, toNat_tail]
      omega
    have char :
      charOf3 (UInt8.ofNat (0xe0 + c.toNat / 4096)) (UInt8.ofNat (0x80 + c.toNat / 64 % 64))
        (UInt8.ofNat (0x80 + c.toNat % 64)) = c := by
      rw [charOf3, lead, toNat_tail, toNat_tail]
      exact back _ (by omega)
    simp only [List.cons_append]
    rw [decodeFrom_three _ _ _ _ _ (by omega) (by omega) second (isTail_tail _), char]
    rfl
  next four =>
    have lead := toNat_octet 0xf0 (c.toNat / 262144) (by omega)
    have second : isSecond (UInt8.ofNat (0xf0 + c.toNat / 262144))
        (UInt8.ofNat (0x80 + c.toNat / 4096 % 64)) = true := by
      rw [isSecond_iff, lead, toNat_tail]
      omega
    have char : charOf4 (UInt8.ofNat (0xf0 + c.toNat / 262144))
        (UInt8.ofNat (0x80 + c.toNat / 4096 % 64)) (UInt8.ofNat (0x80 + c.toNat / 64 % 64))
        (UInt8.ofNat (0x80 + c.toNat % 64)) = c := by
      rw [charOf4, lead, toNat_tail, toNat_tail, toNat_tail]
      exact back _ (by omega)
    simp only [List.cons_append]
    rw [decodeFrom_four _ _ _ _ _ _ (by omega) (by omega) second (isTail_tail _) (isTail_tail _),
      char]
    rfl

theorem decodeFrom_encode (start : Nat) (text : List Char) :
    decodeFrom start (encode text) = .ok text := by
  induction text generalizing start with
  | nil => rfl
  | cons c text ih =>
    rw [encode, List.flatMap_cons, decodeFrom_encodeChar, ← encode, ih]
    rfl

section
variable (a b c d : UInt8)

theorem octet_eq (n : Nat) (same : n = a.toNat) : UInt8.ofNat n = a := by
  rw [same, UInt8.ofNat_toNat]

theorem encodeChar_one (small : a.toNat < 0x80) : encodeChar (Char.ofNat a.toNat) = [a] := by
  have code : (Char.ofNat a.toNat).toNat = a.toNat := toNat_ofNat _ (.inl (by omega))
  simp [encodeChar, code, small]

theorem encodeChar_two (low : 0xc2 ≤ a.toNat) (high : a.toNat < 0xe0)
    (second : isSecond a b = true) :
    encodeChar (charOf2 a b) = [a, b] := by
  rw [isSecond_iff] at second
  have code : (charOf2 a b).toNat = (a.toNat - 0xc0) * 64 + (b.toNat - 0x80) :=
    toNat_ofNat _ (.inl (by omega))
  simp only [encodeChar, code]
  rw [if_neg (by omega), if_pos (by omega), octet_eq a _ (by omega), octet_eq b _ (by omega)]

theorem encodeChar_three (low : 0xe0 ≤ a.toNat) (high : a.toNat < 0xf0)
    (second : isSecond a b = true)
    (third : isTail c = true) : encodeChar (charOf3 a b c) = [a, b, c] := by
  rw [isSecond_iff] at second
  rw [isTail_iff] at third
  have code : (charOf3 a b c).toNat =
      (a.toNat - 0xe0) * 4096 + (b.toNat - 0x80) * 64 + (c.toNat - 0x80) :=
    toNat_ofNat _ (by unfold Nat.isValidChar; omega)
  simp only [encodeChar, code]
  rw [if_neg (by omega), if_neg (by omega), if_pos (by omega), octet_eq a _ (by omega),
    octet_eq b _ (by omega), octet_eq c _ (by omega)]

theorem encodeChar_four (low : 0xf0 ≤ a.toNat) (high : a.toNat < 0xf5)
    (second : isSecond a b = true)
    (third : isTail c = true) (fourth : isTail d = true) :
    encodeChar (charOf4 a b c d) = [a, b, c, d] := by
  rw [isSecond_iff] at second
  rw [isTail_iff] at third fourth
  have code : (charOf4 a b c d).toNat = (a.toNat - 0xf0) * 262144 + (b.toNat - 0x80) * 4096 +
      (c.toNat - 0x80) * 64 + (d.toNat - 0x80) :=
    toNat_ofNat _ (by unfold Nat.isValidChar; omega)
  simp only [encodeChar, code]
  rw [if_neg (by omega), if_neg (by omega), if_neg (by omega), octet_eq a _ (by omega),
    octet_eq b _ (by omega), octet_eq c _ (by omega), octet_eq d _ (by omega)]

end

theorem encode_cons (c : Char) (text : List Char) :
    encode (c :: text) = encodeChar c ++ encode text :=
  List.flatMap_cons

theorem map_cons_eq_ok {result : Except BadOctets (List Char)} {c : Char} {text : List Char}
    (mapped : result.map (c :: ·) = .ok text) :
    ∃ later, result = .ok later ∧ text = c :: later := by
  cases result with
  | error bad => cases mapped
  | ok later => exact ⟨later, rfl, (Except.ok.inj mapped).symm⟩

theorem eq_encode_of_decodeFrom (start : Nat) (octets : List UInt8) (text : List Char)
    (decoded : decodeFrom start octets = .ok text) : octets = encode text := by
  -- Of the cases only those go on that read a whole character.
  fun_induction decodeFrom start octets generalizing text with
  | case1 =>
    cases decoded
    rfl
  | case2 start a rest small ih =>
    obtain ⟨later, goesOn, rfl⟩ := map_cons_eq_ok decoded
    rw [encode_cons, encodeChar_one a (UInt8.lt_iff_toNat_lt.mp small), ← ih later goesOn]
    rfl
  | case5 start a _ bad high b rest second ih =>
    obtain ⟨later, goesOn, rfl⟩ := map_cons_eq_ok decoded
    simp only [UInt8.lt_iff_toNat_lt, UInt8.toNat_ofNat] at bad high
    rw [encode_cons, encodeChar_two a b (by omega) (by omega) second, ← ih later goesOn]
    rfl
  | case12 start a _ _ low high b c rest second third ih =>
    obtain ⟨later, goesOn, rfl⟩ := map_cons_eq_ok decoded
    simp only [UInt8.lt_iff_toNat_lt, UInt8.toNat_ofNat, Bool.not_eq_true', Bool.not_eq_false] at *
    rw [encode_cons, encodeChar_three a b c (by omega) (by omega) second third, ← ih later goesOn]
    rfl
  | case22 start a _ _ _ low high b c d rest second third fourth ih =>
    obtain ⟨later, goesOn, rfl⟩ := map_cons_eq_ok decoded
    simp only [UInt8.lt_iff_toNat_lt, UInt8.toNat_ofNat, Bool.not_eq_true', Bool.not_eq_false] at *
    rw [encode_cons, encodeChar_four a b c d (by omega) (by omega) second third fourth,
      ← ih later goesOn]
    rfl
  | case3 | case4 | case6 | case7 | case8 | case9 | case10 | case11 | case13 | case14 | case15
  | case16 | case17 | case18 | case19 | case20 | case21 | case23 => cases decoded

theorem decode_eq_ok_iff (octets : List UInt8) (text : List Char) :
    decode octets = .ok text ↔ octets = text.flatMap String.utf8EncodeChar := by
  rw [← encode_eq]
  constructor
  · exact eq_encode_of_decodeFrom 0 octets text
  · rintro rfl
    exact decodeFrom_encode 0 text

end LocaleLint.Encoding.Utf8
