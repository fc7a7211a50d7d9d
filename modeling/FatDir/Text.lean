import FatDir.Bytes

/-!
# Names as text

The string functions of the standard library that the directory code applies to names: `str::len` and
`as_bytes` (the UTF-8 encoding, `utf8`), `encode_utf16` (`encodeUtf16`), `String::from_utf16_lossy` and
`String::from_utf8_lossy` (`decodeUtf16`, `decodeUtf8`, which put U+FFFD for what does not decode), `trim_end`
(`trimRight`), `eq_ignore_ascii_case` and `to_uppercase`.

* Decoding the UTF-16 encoding of a string gives the string back (`decodeUtf16_encodeUtf16`).
* On an ASCII string both encodings have one unit per character (`length_utf8_of_isAscii`,
  `encodeUtf16_of_isAscii`); any other string has fewer UTF-16 units than UTF-8 bytes (`length_encodeUtf16_lt`).
-/

namespace FatDir

/-- The UTF-8 encoding of a string (`as_bytes`); `name.len()` is its length. -/
def utf8 (s : String) : List UInt8 := s.data.flatMap String.utf8EncodeChar

/-- The UTF-16 code units of one character. -/
def utf16Units (c : Char) : List UInt16 :=
  if c.toNat < 0x10000 then [UInt16.ofNat c.toNat]
  else [UInt16.ofNat (0xD800 + (c.toNat - 0x10000) / 0x400), UInt16.ofNat (0xDC00 + (c.toNat - 0x10000) % 0x400)]

/-- `encode_utf16`. -/
def encodeUtf16 (s : String) : List UInt16 := s.data.flatMap utf16Units

/-- `char::decode_utf16` with every unpaired surrogate replaced by U+FFFD, as `String::from_utf16_lossy` does. -/
def decodeUtf16 : List UInt16 → List Char
  | [] => []
  | u :: us =>
    if u.toNat < 0xD800 ∨ 0xE000 ≤ u.toNat then Char.ofNat u.toNat :: decodeUtf16 us
    else if u.toNat < 0xDC00 then
      match us with
      | w :: ws =>
        if 0xDC00 ≤ w.toNat ∧ w.toNat < 0xE000 then
          Char.ofNat (0x10000 + (u.toNat - 0xD800) * 0x400 + (w.toNat - 0xDC00)) :: decodeUtf16 ws
        else '�' :: decodeUtf16 (w :: ws)
      | [] => ['�']
    else '�' :: decodeUtf16 us

/-- `String::from_utf16_lossy`. -/
def fromUtf16Lossy (us : List UInt16) : String := ⟨decodeUtf16 us⟩

/-- A continuation byte `10xxxxxx` (`b as i8 < -64`). -/
def isCont (b : UInt8) : Bool := 0x80 ≤ b.toNat && b.toNat < 0xC0

/-- The second byte a three-byte sequence may have after `b` (the table of `Utf8Chunks`). -/
def secondOk3 (b c : UInt8) : Bool :=
  (b.toNat == 0xE0 && 0xA0 ≤ c.toNat && c.toNat < 0xC0) || (0xE1 ≤ b.toNat && b.toNat ≤ 0xEC && isCont c) ||
    (b.toNat == 0xED && 0x80 ≤ c.toNat && c.toNat < 0xA0) || (0xEE ≤ b.toNat && b.toNat ≤ 0xEF && isCont c)

/-- The second byte a four-byte sequence may have after `b`. -/
def secondOk4 (b c : UInt8) : Bool :=
  (b.toNat == 0xF0 && 0x90 ≤ c.toNat && c.toNat < 0xC0) || (0xF1 ≤ b.toNat && b.toNat ≤ 0xF3 && isCont c) ||
    (b.toNat == 0xF4 && 0x80 ≤ c.toNat && c.toNat < 0x90)

/-- UTF-8 decoding as `String::from_utf8_lossy` does it: each maximal prefix of an invalid sequence, and an
incomplete sequence at the end, becomes one U+FFFD. -/
def decodeUtf8 : List UInt8 → List Char
  | [] => []
  | b :: bs =>
    if b.toNat < 0x80 then Char.ofNat b.toNat :: decodeUtf8 bs
    else if 0xC2 ≤ b.toNat ∧ b.toNat < 0xE0 then
      match bs with
      | c :: cs =>
        if isCont c then Char.ofNat ((b.toNat % 0x20) * 0x40 + c.toNat % 0x40) :: decodeUtf8 cs
        else '�' :: decodeUtf8 (c :: cs)
      | [] => ['�']
    else if 0xE0 ≤ b.toNat ∧ b.toNat < 0xF0 then
      match bs with
      | c :: cs =>
        if secondOk3 b c then
          match cs with
          | d :: ds =>
            if isCont d then
              Char.ofNat ((b.toNat % 0x10) * 0x1000 + (c.toNat % 0x40) * 0x40 + d.toNat % 0x40) :: decodeUtf8 ds
            else '�' :: decodeUtf8 (d :: ds)
          | [] => ['�']
        else '�' :: decodeUtf8 (c :: cs)
      | [] => ['�']
    else if 0xF0 ≤ b.toNat ∧ b.toNat < 0xF5 then
      match bs with
      | c :: cs =>
        if secondOk4 b c then
          match cs with
          | d :: ds =>
            if isCont d then
              match ds with
              | e :: es =>
                if isCont e then
                  Char.ofNat ((b.toNat % 0x08) * 0x40000 + (c.toNat % 0x40) * 0x1000 + (d.toNat % 0x40) * 0x40 +
                    e.toNat % 0x40) :: decodeUtf8 es
                else '�' :: decodeUtf8 (e :: es)
              | [] => ['�']
            else '�' :: decodeUtf8 (d :: ds)
          | [] => ['�']
        else '�' :: decodeUtf8 (c :: cs)
      | [] => ['�']
    else '�' :: decodeUtf8 bs

/-- `char::is_whitespace`: the Unicode `White_Space` characters. -/
def isWhitespace (c : Char) : Bool :=
  let n := c.toNat
  (0x09 ≤ n && n ≤ 0x0D) || n == 0x20 || n == 0x85 || n == 0xA0 || n == 0x1680 || (0x2000 ≤ n && n ≤ 0x200A) ||
    n == 0x2028 || n == 0x2029 || n == 0x202F || n == 0x205F || n == 0x3000

/-- `trim_end` (`trim_right`). -/
def trimRight (cs : List Char) : List Char := (cs.reverse.dropWhile isWhitespace).reverse

/-- `eq_ignore_ascii_case`: equal once every ASCII capital is lowered (`Char.toLower` touches only `A`–`Z`). -/
def eqIgnoreAsciiCase (a b : String) : Bool := a.data.map Char.toLower == b.data.map Char.toLower

/-- `char::to_uppercase` where the model knows Unicode's mapping: the ASCII letters, and the Latin-1 Supplement, where
`µ` becomes `Μ` (U+039C), `ß` becomes `SS`, `ÿ` becomes `Ÿ` (U+0178) and the other small letters `à` to `þ` but `÷`
move `0x20` down. Every other character is left as it is, which is Unicode's mapping only for the characters without
case that `UpperKnown` names. -/
def upperChar (c : Char) : List Char :=
  if c.toNat < 0x80 then [c.toUpper]
  else if c.toNat = 0xB5 then [Char.ofNat 0x39C]
  else if c.toNat = 0xDF then ['S', 'S']
  else if c.toNat = 0xFF then [Char.ofNat 0x178]
  else if 0xE0 ≤ c.toNat ∧ c.toNat ≤ 0xFE ∧ c.toNat ≠ 0xF7 then [Char.ofNat (c.toNat - 0x20)]
  else [c]

/-- The characters whose `to_uppercase` `upperChar` gives: ASCII and the Latin-1 Supplement, and the blocks without
case, whose characters are their own uppercase: Hebrew, Arabic, Thai, Hiragana and Katakana, the CJK Unified
Ideographs and the Hangul Syllables. -/
def UpperKnown (c : Char) : Prop :=
  c.toNat < 0x100 ∨ (0x590 ≤ c.toNat ∧ c.toNat < 0x700) ∨ (0xE00 ≤ c.toNat ∧ c.toNat < 0xE80) ∨
    (0x3040 ≤ c.toNat ∧ c.toNat < 0x3100) ∨ (0x4E00 ≤ c.toNat ∧ c.toNat < 0xA000) ∨
    (0xAC00 ≤ c.toNat ∧ c.toNat < 0xD7B0)

instance (c : Char) : Decidable (UpperKnown c) := inferInstanceAs (Decidable (_ ∨ _))

/-- `str::to_uppercase`: the uppercase of each character in turn. -/
def toUppercase (s : String) : String := ⟨s.data.flatMap upperChar⟩

/-- Every character is ASCII. -/
def IsAscii (s : String) : Prop := ∀ c ∈ s.data, c.toNat < 0x80

instance (s : String) : Decidable (IsAscii s) := inferInstanceAs (Decidable (∀ c ∈ s.data, c.toNat < 0x80))

theorem flatMap_upperChar : ∀ {cs : List Char}, (∀ c ∈ cs, c.toNat < 0x80) →
    cs.flatMap upperChar = cs.map Char.toUpper
  | [], _ => rfl
  | c :: cs, h => by
    rw [List.flatMap_cons, List.map_cons, upperChar, if_pos (h c (List.mem_cons_self _ _)),
      flatMap_upperChar fun c' hc' => h c' (List.mem_cons_of_mem _ hc')]
    rfl

/-- On an ASCII string `to_uppercase` is `Char.toUpper` character by character. -/
theorem toUppercase_of_isAscii {s : String} (h : IsAscii s) : toUppercase s = ⟨s.data.map Char.toUpper⟩ :=
  congrArg String.mk (flatMap_upperChar h)

/-! ## UTF-16 round trip -/

theorem decodeUtf16_cons_of_lt {u : UInt16} (h : u.toNat < 0xD800 ∨ 0xE000 ≤ u.toNat) (us : List UInt16) :
    decodeUtf16 (u :: us) = Char.ofNat u.toNat :: decodeUtf16 us := by
  rw [decodeUtf16.eq_def]
  exact if_pos h

theorem decodeUtf16_pair {u w : UInt16} (hu : 0xD800 ≤ u.toNat ∧ u.toNat < 0xDC00)
    (hw : 0xDC00 ≤ w.toNat ∧ w.toNat < 0xE000) (ws : List UInt16) :
    decodeUtf16 (u :: w :: ws) =
      Char.ofNat (0x10000 + (u.toNat - 0xD800) * 0x400 + (w.toNat - 0xDC00)) :: decodeUtf16 ws := by
  rw [decodeUtf16.eq_def]
  dsimp only
  rw [if_neg (by omega), if_pos hu.2]
  exact if_pos hw

theorem decodeUtf16_utf16Units (c : Char) (rest : List UInt16) :
    decodeUtf16 (utf16Units c ++ rest) = c :: decodeUtf16 rest := by
  have hv : c.toNat < 0xD800 ∨ (0xDFFF < c.toNat ∧ c.toNat < 0x110000) := c.valid
  by_cases h : c.toNat < 0x10000
  · have hu : (UInt16.ofNat c.toNat).toNat = c.toNat := by rw [toNat_u16_ofNat]; omega
    rw [utf16Units, if_pos h, List.singleton_append, decodeUtf16_cons_of_lt (by omega), hu, Char.ofNat_toNat]
  · have hu : (UInt16.ofNat (0xD800 + (c.toNat - 0x10000) / 0x400)).toNat = 0xD800 + (c.toNat - 0x10000) / 0x400 := by
      rw [toNat_u16_ofNat]; omega
    have hw : (UInt16.ofNat (0xDC00 + (c.toNat - 0x10000) % 0x400)).toNat = 0xDC00 + (c.toNat - 0x10000) % 0x400 := by
      rw [toNat_u16_ofNat]; omega
    have he : 0x10000 + (0xD800 + (c.toNat - 0x10000) / 0x400 - 0xD800) * 0x400 +
        (0xDC00 + (c.toNat - 0x10000) % 0x400 - 0xDC00) = c.toNat := by omega
    rw [utf16Units, if_neg h, List.cons_append, List.cons_append, List.nil_append,
      decodeUtf16_pair (by omega) (by omega), hu, hw, he, Char.ofNat_toNat]

/-- `from_utf16_lossy` undoes `encode_utf16`. -/
theorem decodeUtf16_encodeUtf16 (s : String) : decodeUtf16 (encodeUtf16 s) = s.data := by
  obtain ⟨cs⟩ := s
  show decodeUtf16 (cs.flatMap utf16Units) = cs
  induction cs with
  | nil => rfl
  | cons c cs ih => rw [List.flatMap_cons, decodeUtf16_utf16Units, ih]

/-! ## ASCII names -/

theorem utf8EncodeChar_of_lt {c : Char} (h : c.toNat < 0x80) : String.utf8EncodeChar c = [UInt8.ofNat c.toNat] := by
  have h' : c.val ≤ 0x7f := by
    rw [UInt32.le_def]
    show c.val.toBitVec.toNat ≤ 127
    exact Nat.le_of_lt_succ h
  simp only [String.utf8EncodeChar, h', if_true, List.cons.injEq, and_true]
  rfl

theorem utf8_of_isAscii {s : String} (h : IsAscii s) : utf8 s = s.data.map fun c => UInt8.ofNat c.toNat := by
  obtain ⟨cs⟩ := s
  induction cs with
  | nil => rfl
  | cons c cs ih =>
    have hc := h c (List.mem_cons_self _ _)
    rw [utf8, List.flatMap_cons, utf8EncodeChar_of_lt hc, List.map_cons]
    exact congrArg _ (ih fun d hd => h d (List.mem_cons_of_mem _ hd))

theorem length_utf8_of_isAscii {s : String} (h : IsAscii s) : (utf8 s).length = s.length := by
  rw [utf8_of_isAscii h, List.length_map]
  rfl

theorem encodeUtf16_of_isAscii {s : String} (h : IsAscii s) :
    encodeUtf16 s = s.data.map fun c => UInt16.ofNat c.toNat := by
  obtain ⟨cs⟩ := s
  induction cs with
  | nil => rfl
  | cons c cs ih =>
    have hc := h c (List.mem_cons_self _ _)
    rw [encodeUtf16, List.flatMap_cons, utf16Units, if_pos (by omega), List.map_cons]
    exact congrArg _ (ih fun d hd => h d (List.mem_cons_of_mem _ hd))

theorem length_encodeUtf16_of_isAscii {s : String} (h : IsAscii s) : (encodeUtf16 s).length = s.length := by
  rw [encodeUtf16_of_isAscii h, List.length_map]
  rfl

/-! ## Other names -/

/-- A character takes no more UTF-16 units than UTF-8 bytes, and fewer when it is not ASCII. -/
theorem length_utf16Units_add_le (c : Char) :
    (utf16Units c).length + (if 0x80 ≤ c.toNat then 1 else 0) ≤ (String.utf8EncodeChar c).length := by
  have hv : c.toNat < 0xD800 ∨ (0xDFFF < c.toNat ∧ c.toNat < 0x110000) := c.valid
  have hle : ∀ n (h : n < UInt32.size), c.val ≤ UInt32.ofNatCore n h ↔ c.toNat ≤ n := fun n h => by
    rw [UInt32.le_def]
    exact Iff.rfl
  rw [String.length_utf8EncodeChar, Char.utf8Size, utf16Units]
  simp only [hle]
  split_ifs <;> simp <;> omega

theorem length_encodeUtf16_add_le (cs : List Char) :
    (cs.flatMap utf16Units).length + cs.countP (fun c => 0x80 ≤ c.toNat) ≤
      (cs.flatMap String.utf8EncodeChar).length := by
  induction cs with
  | nil => simp
  | cons c cs ih =>
    have hc := length_utf16Units_add_le c
    simp only [List.flatMap_cons, List.length_append, List.countP_cons, decide_eq_true_eq] at hc ⊢
    split_ifs at hc ⊢ <;> omega

/-- A name with a character outside ASCII has fewer UTF-16 units than UTF-8 bytes. -/
theorem length_encodeUtf16_lt {s : String} (h : ¬IsAscii s) : (encodeUtf16 s).length < (utf8 s).length := by
  obtain ⟨cs⟩ := s
  have hpos : 0 < cs.countP (fun c => 0x80 ≤ c.toNat) := by
    simp only [IsAscii, not_forall, Nat.not_lt] at h
    obtain ⟨c, hc, hlt⟩ := h
    exact List.countP_pos_iff.mpr ⟨c, hc, by simpa using hlt⟩
  have := length_encodeUtf16_add_le cs
  simp only [encodeUtf16, utf8] at this ⊢
  omega

end FatDir
