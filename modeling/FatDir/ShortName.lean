import FatDir.Group

/-!
# Short names against their description

The short name as the documentation describes it: the upper-cased name split at its last dot (`splitLastDot`), at
most eight bytes of the part before the dot and at most three of the part after it, each padded with spaces
(`specShortName`).

* On an ASCII name, `gen_short_name` gives the padded base followed by the padded bytes that start AT the dot
  (`genShortName_eq_rightpad`, with `dotExt` for the extension field).
* `short_file_name` undoes the padding of a base and an extension of printable bytes (`shortFileName_of_rightpad`).
* So the two short names agree exactly when the extension is empty, and a valid 8.3 name reads back from its short
  entry exactly when it has no extension (`genShortName_ext_at_dot`).
-/

namespace FatDir

/-! ## The last dot -/

/-- The upper-cased name split at its last dot: the part before the dot and, if there is a dot, the part after it. -/
def splitLastDot : List UInt8 → List UInt8 × Option (List UInt8)
  | [] => ([], none)
  | b :: bs =>
    match splitLastDot bs with
    | (pre, some post) => (b :: pre, some post)
    | (_, none) => if b = 0x2E then ([], some bs) else (b :: bs, none)

theorem splitLastDot_of_not_mem : ∀ {u : List UInt8}, 0x2E ∉ u → splitLastDot u = (u, none)
  | [], _ => rfl
  | b :: bs, h => by
    rw [List.mem_cons, not_or] at h
    simp [splitLastDot, splitLastDot_of_not_mem h.2, Ne.symm h.1]

theorem splitLastDot_append_dot {post : List UInt8} (h : 0x2E ∉ post) :
    ∀ pre : List UInt8, splitLastDot (pre ++ 0x2E :: post) = (pre, some post)
  | [] => by simp [splitLastDot, splitLastDot_of_not_mem h]
  | b :: pre => by simp [splitLastDot, splitLastDot_append_dot h pre]

/-- A list of bytes either has no dot or splits at its last one. -/
theorem splitLastDot_cases (u : List UInt8) :
    (0x2E ∉ u ∧ splitLastDot u = (u, none)) ∨
      ∃ pre post, 0x2E ∉ post ∧ u = pre ++ 0x2E :: post ∧ splitLastDot u = (pre, some post) := by
  induction u with
  | nil => exact .inl ⟨List.not_mem_nil _, rfl⟩
  | cons b bs ih =>
    rcases ih with ⟨hn, -⟩ | ⟨pre, post, hp, rfl, -⟩
    · by_cases hb : b = 0x2E
      · subst hb
        exact .inr ⟨[], bs, hn, rfl, splitLastDot_append_dot hn []⟩
      · have hn' : 0x2E ∉ b :: bs := by simp [hn, Ne.symm hb]
        exact .inl ⟨hn', splitLastDot_of_not_mem hn'⟩
    · exact .inr ⟨b :: pre, post, hp, rfl, splitLastDot_append_dot hp (b :: pre)⟩

theorem rfindByte_of_not_mem {b : UInt8} : ∀ {u : List UInt8}, b ∉ u → rfindByte b u = none
  | [], _ => rfl
  | x :: xs, h => by
    rw [List.mem_cons, not_or] at h
    simp [rfindByte, rfindByte_of_not_mem h.2, Ne.symm h.1]

theorem rfindByte_append {b : UInt8} {post : List UInt8} (h : b ∉ post) :
    ∀ pre : List UInt8, rfindByte b (pre ++ b :: post) = some pre.length
  | [] => by simp [rfindByte, rfindByte_of_not_mem h]
  | x :: pre => by simp [rfindByte, rfindByte_append h pre]

/-! ## The source's short name in the description's terms -/

/-- The short name the documentation describes: at most eight bytes of the part before the last dot and at most three
of the part after it, each padded with spaces; the whole name and a blank extension when there is no dot. -/
def specShortName (name : String) : List UInt8 :=
  let parts := splitLastDot (utf8 (toUppercase name))
  (parts.1.take 8).rightpad 8 0x20 ++ ((parts.2.getD []).take 3).rightpad 3 0x20

/-- The bytes `gen_short_name` puts in the extension field: from the dot on, as many as the extension has, at most
three. -/
def dotExt : Option (List UInt8) → List UInt8
  | some ext => (0x2E :: ext).take (min ext.length 3)
  | none => []

theorem length_rightpad (l : List UInt8) (n : Nat) (a : UInt8) : (l.rightpad n a).length = max n l.length := by
  simp only [List.rightpad, List.length_append, List.length_replicate]
  omega

theorem padShortName_eq (base ext : List UInt8) :
    padShortName base ext = (base.take 8).rightpad 8 0x20 ++ (ext.take 3).rightpad 3 0x20 := by
  simp only [padShortName, List.rightpad, List.length_take, List.append_assoc]
  rw [show 8 - min 8 base.length = 8 - base.length by omega, show 3 - min 3 ext.length = 3 - ext.length by omega]

/-- `gen_short_name` of an ASCII name: the padded base, then the padded bytes from the last dot on. -/
theorem genShortName_eq_rightpad {name : String} (h : IsAscii name) :
    ∃ sn, genShortName name = .ok sn ∧ sn.toList =
      ((splitLastDot (utf8 (toUppercase name))).1.take 8).rightpad 8 0x20 ++
        (dotExt (splitLastDot (utf8 (toUppercase name))).2).rightpad 3 0x20 := by
  obtain ⟨sn, hsn, hl⟩ := genShortName_toList (utf8_toUppercase_lt h)
  refine ⟨sn, hsn, ?_⟩
  rcases splitLastDot_cases (utf8 (toUppercase name)) with ⟨hn, hs⟩ | ⟨pre, post, hp, hu, hs⟩
  · rw [hl, rfindByte_of_not_mem hn, hs]
    dsimp only
    rw [padShortName_eq, List.take_take, min_self]
    rfl
  · rw [hs, hl, hu, rfindByte_append hp]
    dsimp only
    simp only [List.take_left, List.drop_left, padShortName_eq, List.take_take, min_self, List.length_append,
      List.length_cons, Nat.add_sub_cancel_left, Nat.add_sub_cancel, dotExt, min_left_comm]

/-! ## Reading a short name back -/

/-- A byte `short_file_name` keeps as it is: printable ASCII other than the space. -/
def IsPrintable (b : UInt8) : Prop := 0x20 < b.toNat ∧ b.toNat < 0x7F

instance (b : UInt8) : Decidable (IsPrintable b) := inferInstanceAs (Decidable (_ ∧ _))

theorem toNat_charOfNat {n : Nat} (h : n < 0xD800) : (Char.ofNat n).toNat = n := by
  rw [Char.ofNat, dif_pos (Or.inl h)]
  rfl

theorem decodeUtf8_cons_of_lt {b : UInt8} (h : b.toNat < 0x80) (bs : List UInt8) :
    decodeUtf8 (b :: bs) = Char.ofNat b.toNat :: decodeUtf8 bs := by
  conv_lhs => unfold decodeUtf8
  exact if_pos h

theorem decodeUtf8_append_of_lt : ∀ {l : List UInt8}, (∀ b ∈ l, b.toNat < 0x80) → ∀ r : List UInt8,
    decodeUtf8 (l ++ r) = decodeUtf8 l ++ decodeUtf8 r
  | [], _, _ => rfl
  | b :: bs, h, r => by
    rw [List.cons_append, decodeUtf8_cons_of_lt (h b (List.mem_cons_self _ _)), decodeUtf8_cons_of_lt (h b (List.mem_cons_self _ _)),
      decodeUtf8_append_of_lt (fun x hx => h x (List.mem_cons_of_mem _ hx)) r, List.cons_append]

theorem decodeUtf8_of_lt : ∀ {l : List UInt8}, (∀ b ∈ l, b.toNat < 0x80) →
    decodeUtf8 l = l.map fun b => Char.ofNat b.toNat
  | [], _ => rfl
  | b :: bs, h => by
    rw [decodeUtf8_cons_of_lt (h b (List.mem_cons_self _ _)),
      decodeUtf8_of_lt fun x hx => h x (List.mem_cons_of_mem _ hx), List.map_cons]

/-- The characters of an ASCII string are its UTF-8 bytes decoded. -/
theorem decodeUtf8_utf8 {s : String} (h : IsAscii s) : decodeUtf8 (utf8 s) = s.data := by
  rw [decodeUtf8_of_lt (utf8_lt_of_isAscii h), utf8_of_isAscii h, List.map_map]
  refine (List.map_congr_left fun c hc => ?_).trans (List.map_id _)
  have := h c hc
  simp only [Function.comp_apply, toNat_u8_ofNat, Nat.mod_eq_of_lt (show c.toNat < 256 by omega), Char.ofNat_toNat,
    id]

theorem isWhitespace_of_printable {b : UInt8} (h : IsPrintable b) : isWhitespace (Char.ofNat b.toNat) = false := by
  obtain ⟨h1, h2⟩ := h
  simp only [isWhitespace, toNat_charOfNat (show b.toNat < 0xD800 by omega)]
  simp
  omega

/-- `trim_end` of characters that are not white space, followed by white space, leaves the characters. -/
theorem trimRight_append_replicate {cs : List Char} (h : ∀ c ∈ cs, isWhitespace c = false) {c : Char}
    (hc : isWhitespace c = true) (n : Nat) : trimRight (cs ++ List.replicate n c) = cs := by
  have hself : cs.reverse.dropWhile isWhitespace = cs.reverse := by
    cases hr : cs.reverse with
    | nil => rfl
    | cons a t => simp [h a (List.mem_reverse.mp (hr ▸ List.mem_cons_self a t))]
  simp [trimRight, List.dropWhile_append, List.dropWhile_replicate, hc, hself]

theorem trimRight_decodeUtf8_rightpad {l : List UInt8} (h : ∀ b ∈ l, IsPrintable b) (n : Nat) :
    trimRight (decodeUtf8 (l.rightpad n 0x20)) = decodeUtf8 l := by
  have hlt : ∀ b ∈ l, b.toNat < 0x80 := fun b hb => by have := (h b hb).2; omega
  have hpad : ∀ b ∈ l.rightpad n 0x20, b.toNat < 0x80 := by
    simp only [List.rightpad, List.mem_append, List.mem_replicate]
    rintro b (hb | ⟨-, rfl⟩)
    exacts [hlt b hb, by decide]
  rw [decodeUtf8_of_lt hpad, decodeUtf8_of_lt hlt, List.rightpad, List.map_append, List.map_replicate]
  exact trimRight_append_replicate (by simpa using fun b hb => isWhitespace_of_printable (h b hb))
    (c := Char.ofNat (UInt8.toNat 0x20)) rfl _

/-- `short_file_name` of a name field holding a base of at most eight printable bytes and an extension of printable
bytes, each padded with spaces: the base, then a dot and the extension when there is one. -/
theorem shortFileName_of_rightpad {e : DirEntry} {base ext : List UInt8} (hb : ∀ x ∈ base, IsPrintable x)
    (he : ∀ x ∈ ext, IsPrintable x) (hbl : base.length ≤ 8)
    (h : e.data.name.toList = base.rightpad 8 0x20 ++ ext.rightpad 3 0x20) :
    e.shortFileName = if ext = [] then ⟨decodeUtf8 base⟩ else ⟨decodeUtf8 base ++ '.' :: decodeUtf8 ext⟩ := by
  have h8 : (base.rightpad 8 0x20).length = 8 := by rw [length_rightpad]; omega
  unfold DirEntry.shortFileName
  simp only [h, List.take_left' h8, List.drop_left' h8, trimRight_decodeUtf8_rightpad hb,
    trimRight_decodeUtf8_rightpad he]
  cases ext with
  | nil => rfl
  | cons x xs =>
    have hx := (he x (List.mem_cons_self _ _)).2
    simp [decodeUtf8_cons_of_lt (show x.toNat < 0x80 by omega)]

/-! ## The extension starts at the dot -/

/-- A byte of a valid 8.3 name: printable ASCII, neither a space nor a dot. -/
def IsShortNameByte (b : UInt8) : Prop := IsPrintable b ∧ b ≠ 0x2E

instance (b : UInt8) : Decidable (IsShortNameByte b) := inferInstanceAs (Decidable (_ ∧ _))

/-- A valid 8.3 name: its upper-cased bytes are a base of one to eight bytes and, if it has an extension, a dot and
one to three bytes, none of them a space or a dot. -/
def ValidShortName (name : String) : Prop :=
  ∃ base ext : List UInt8, (∀ b ∈ base ++ ext, IsShortNameByte b) ∧ 0 < base.length ∧ base.length ≤ 8 ∧
    ext.length ≤ 3 ∧ utf8 (toUppercase name) = if ext = [] then base else base ++ 0x2E :: ext

theorem charOfNat_ne_dot {b : UInt8} (h : IsShortNameByte b) : Char.ofNat b.toNat ≠ '.' := fun hc => by
  have hn := congrArg Char.toNat hc
  rw [toNat_charOfNat (by have := h.1.2; omega)] at hn
  exact h.2 (UInt8.toNat.inj hn)

/-- The padded extension fields of the two short names agree exactly when the extension is empty: the source's starts
with the dot, the description's with the first byte after it. -/
theorem rightpad_dotExt_iff (u : List UInt8) :
    (dotExt (splitLastDot u).2).rightpad 3 0x20 = (((splitLastDot u).2.getD []).take 3).rightpad 3 0x20 ↔
      (splitLastDot u).2.getD [] = [] := by
  rcases splitLastDot_cases u with ⟨-, hs⟩ | ⟨pre, post, hp, -, hs⟩
  · simp [hs, dotExt]
  · rw [hs]
    cases post with
    | nil => simp [dotExt]
    | cons p ps =>
      have hp' : (0x2E : UInt8) ≠ p := fun e => hp (e ▸ List.mem_cons_self _ _)
      simp [dotExt, List.rightpad, show min (ps.length + 1) 3 = min ps.length 2 + 1 by omega, hp']

/-- `gen_short_name` against the description, on ASCII names: the two short names agree exactly when the name has no
extension after its last dot, since the source copies the extension from the dot itself; and a valid 8.3 name reads
back through `short_file_name` as the upper-cased name exactly when it has no extension. -/
theorem genShortName_ext_at_dot {name : String} (h : IsAscii name) :
    ∃ sn, genShortName name = .ok sn ∧
      (sn.toList = specShortName name ↔ (splitLastDot (utf8 (toUppercase name))).2.getD [] = []) ∧
      (ValidShortName name → ∀ e : DirEntry, e.data.name = sn →
        (e.shortFileName = toUppercase name ↔ (splitLastDot (utf8 (toUppercase name))).2 = none)) := by
  obtain ⟨sn, hsn, hl⟩ := genShortName_eq_rightpad h
  refine ⟨sn, hsn, by rw [hl, specShortName, List.append_cancel_left_eq]; exact rightpad_dotExt_iff _, ?_⟩
  rintro ⟨base, ext, hbytes, -, hbl, -, hu⟩ e rfl
  have hpb : ∀ b ∈ base, IsPrintable b := fun b hb => (hbytes b (List.mem_append_left _ hb)).1
  have hsplit : splitLastDot (utf8 (toUppercase name)) = (base, if ext = [] then none else some ext) := by
    rw [hu]
    split_ifs
    · exact splitLastDot_of_not_mem fun hd => (hbytes _ (List.mem_append_left _ hd)).2 rfl
    · exact splitLastDot_append_dot (fun hd => (hbytes _ (List.mem_append_right _ hd)).2 rfl) base
  have hup : toUppercase name = ⟨decodeUtf8 (if ext = [] then base else base ++ 0x2E :: ext)⟩ := by
    rw [← hu, decodeUtf8_utf8 (isAscii_toUppercase h)]
  rw [hsplit, List.take_of_length_le hbl] at hl
  rw [hsplit, hup]
  cases ext with
  | nil =>
    rw [shortFileName_of_rightpad hpb (fun _ h => absurd h (List.not_mem_nil _)) hbl hl]
    simp [dotExt]
  | cons x xs =>
    have hx : IsShortNameByte x := hbytes x (by simp)
    have hpd : ∀ b ∈ dotExt (some (x :: xs)), IsPrintable b := by
      intro b hb
      rcases List.mem_cons.mp (List.mem_of_mem_take hb) with rfl | hb
      · decide
      · exact (hbytes b (List.mem_append_right _ hb)).1
    have hdot : ∀ bs, decodeUtf8 (0x2E :: bs) = '.' :: decodeUtf8 bs := decodeUtf8_cons_of_lt (by decide)
    rw [shortFileName_of_rightpad hpb hpd hbl hl, if_neg (List.cons_ne_nil x xs),
      decodeUtf8_append_of_lt fun b hb => by have := (hpb b hb).2; omega]
    simp [dotExt, show min (xs.length + 1) 3 = min xs.length 2 + 1 by omega,
      decodeUtf8_cons_of_lt (show x.toNat < 0x80 by have := hx.1.2; omega),
      hdot, String.ext_iff, Ne.symm (charOfNat_ne_dot hx)]

theorem genShortName_ext_at_dot_a :
    IsAscii "A.TXT" ∧ ∃ sn, genShortName "A.TXT" = .ok sn ∧
      (sn.toList = specShortName "A.TXT" ↔ (splitLastDot (utf8 (toUppercase "A.TXT"))).2.getD [] = []) ∧
      (ValidShortName "A.TXT" → ∀ e : DirEntry, e.data.name = sn →
        (e.shortFileName = toUppercase "A.TXT" ↔ (splitLastDot (utf8 (toUppercase "A.TXT"))).2 = none)) :=
  ⟨by decide, genShortName_ext_at_dot (by decide)⟩

end FatDir
