import FatDir.Iter

/-!
# The fields of a short entry: first cluster and DOS timestamps

`set_first_cluster` splits a cluster number into the two `u16` halves that `first_cluster` joins again: a cluster
set is read back, `0` as no cluster (`firstCluster_setFirstCluster`), also through the slot codec
(`setFirstCluster_decode`), and setting the cluster an entry reports changes nothing (`setFirstCluster_firstCluster`).

`Date`, `Time` and `DateTime` are the DOS date and time words unpacked into `u16` fields. Decoding a word and
encoding it again gives the word back (`Date.toU16_fromU16`, `Time.toU16_fromU16`), so writing back the
modification time an entry reports changes nothing (`setModified_modified`). The other way round a date and time
come back exactly when every field fits its bits and the seconds are even (`modified_setModified`); a year before
1980 makes `to_u16` panic on its subtraction (the debug build's overflow check).
-/

namespace FatDir

/-! ## Words as naturals -/

section Words

variable (x y : UInt16)

theorem toNat_u16_shiftRight : (x >>> y).toNat = x.toNat / 2 ^ (y.toNat % 16) := by
  show x.toNat >>> (y % 16).toNat = _
  rw [Nat.shiftRight_eq_div_pow, UInt16.toNat_mod]
  rfl

theorem toNat_u16_shiftLeft : (x <<< y).toNat = x.toNat * 2 ^ (y.toNat % 16) % 65536 := by
  show x.toNat <<< (y % 16).toNat % 2 ^ 16 = _
  rw [Nat.shiftLeft_eq, UInt16.toNat_mod]
  rfl

theorem toNat_u16_or : (x ||| y).toNat = x.toNat ||| y.toNat := BitVec.toNat_or _ _

theorem toNat_u16_add : (x + y).toNat = (x.toNat + y.toNat) % 65536 := BitVec.toNat_add _ _

theorem toNat_u16_mul : (x * y).toNat = x.toNat * y.toNat % 65536 := BitVec.toNat_mul _ _

theorem u16_lt_iff : x < y ↔ x.toNat < y.toNat := .rfl

theorem toNat_u16_lt : x.toNat < 65536 := x.toNat_lt_size

end Words

theorem toNat_u32_shiftRight (x y : UInt32) : (x >>> y).toNat = x.toNat / 2 ^ (y.toNat % 32) := by
  show x.toNat >>> (y % 32).toNat = _
  rw [Nat.shiftRight_eq_div_pow, UInt32.toNat_mod]
  rfl

theorem toNat_toUInt16 (x : UInt32) : x.toUInt16.toNat = x.toNat % 65536 := toNat_u16_ofNat _

/-- Bits below `2 ^ k` and a multiple of `2 ^ k` do not meet: their `|` is their sum. -/
theorem or_eq_add_of_lt {a b k : Nat} (ha : a % 2 ^ k = 0) (hb : b < 2 ^ k) : a ||| b = a + b := by
  obtain ⟨q, rfl⟩ := Nat.dvd_of_mod_eq_zero ha
  exact (Nat.mul_add_lt_is_or hb q).symm

namespace DirFileEntryData

/-- `set_first_cluster`: the high and the low half of the cluster number, `0` for none. -/
def setFirstCluster (d : DirFileEntryData) (cluster : Option UInt32) : DirFileEntryData :=
  let n := cluster.getD 0
  { d with firstClusterHi := (n >>> 16).toUInt16, firstClusterLo := (n &&& 0xFFFF).toUInt16 }

/-- The halves `set_first_cluster` writes: the cluster number divided by `2 ^ 16`, and its remainder. -/
theorem toNat_halves (d : DirFileEntryData) (c : Option UInt32) :
    (d.setFirstCluster c).firstClusterHi.toNat = (c.getD 0).toNat / 65536 ∧
      (d.setFirstCluster c).firstClusterLo.toNat = (c.getD 0).toNat % 65536 := by
  have hlt : (c.getD 0).toNat < 4294967296 := (c.getD 0).toNat_lt_size
  refine ⟨?_, ?_⟩
  · show ((c.getD 0) >>> 16).toUInt16.toNat = _
    rw [toNat_toUInt16, toNat_u32_shiftRight]
    show (c.getD 0).toNat / 2 ^ 16 % 65536 = _
    omega
  · show ((c.getD 0) &&& 0xFFFF).toUInt16.toNat = _
    rw [toNat_toUInt16, UInt32.and_toNat]
    exact (congrArg (· % 65536) (Nat.and_pow_two_sub_one_eq_mod _ 16)).trans (Nat.mod_mod _ _)

/-- `first_cluster` after `set_first_cluster` gives the cluster set, none for `0`. -/
theorem firstCluster_setFirstCluster (d : DirFileEntryData) (c : Option UInt32) :
    (d.setFirstCluster c).firstCluster = (c.filter (· != 0)).map UInt32.toNat := by
  obtain ⟨h₁, h₂⟩ := toNat_halves d c
  rw [firstCluster, h₁, h₂, Nat.div_add_mod']
  cases c with
  | none => rfl
  | some c =>
    by_cases h : c = 0
    · simp [h, Option.filter]
    · have h' : c.toNat ≠ 0 := fun h0 => h (UInt32.toNat.inj h0)
      simp [h, h', Option.filter]

/-- Setting the cluster an entry reports changes nothing. -/
theorem setFirstCluster_firstCluster (d : DirFileEntryData) :
    d.setFirstCluster (d.firstCluster.map UInt32.ofNat) = d := by
  have hhi := toNat_u16_lt d.firstClusterHi
  have hlo := toNat_u16_lt d.firstClusterLo
  have hn : ((d.firstCluster.map UInt32.ofNat).getD 0).toNat =
      d.firstClusterHi.toNat * 65536 + d.firstClusterLo.toNat := by
    rw [firstCluster]
    split <;> simp only [Option.map_none', Option.map_some', Option.getD_none, Option.getD_some, toNat_u32_ofNat,
      UInt32.toNat_zero] <;> omega
  obtain ⟨h₁, h₂⟩ := toNat_halves d (d.firstCluster.map UInt32.ofNat)
  rw [hn] at h₁ h₂
  have e₁ := UInt16.toNat.inj (h₁.trans (by omega : _ = d.firstClusterHi.toNat))
  have e₂ := UInt16.toNat.inj (h₂.trans (by omega : _ = d.firstClusterLo.toNat))
  cases d
  simp only [setFirstCluster] at e₁ e₂ ⊢
  rw [e₁, e₂]

/-- A cluster set is read back through the slot codec too: the entry written and read again reports it. -/
theorem setFirstCluster_decode {d : DirFileEntryData} (h : d.attrs.contains .lfn = false) (c : Option UInt32) :
    ∃ d', (DirEntryData.file (d.setFirstCluster c)).toSlot.decode = .file d' ∧
      d'.firstCluster = (c.filter (· != 0)).map UInt32.toNat :=
  ⟨_, Slot.decode_of_run (DirEntryData.run_toSlot h), firstCluster_setFirstCluster d c⟩

end DirFileEntryData

/-! ## Dates and times -/

/-- The panic of a `u16` subtraction below zero, in a debug build. -/
def subOverflowPanic : Fault := .panic "attempt to subtract with overflow"

/-- `Date`: a DOS date. -/
structure Date where
  year : UInt16
  month : UInt16
  day : UInt16
  deriving DecidableEq, Repr

/-- `Time`: a DOS time. -/
structure Time where
  hour : UInt16
  min : UInt16
  sec : UInt16
  deriving DecidableEq, Repr

/-- `DateTime`. -/
structure DateTime where
  date : Date
  time : Time
  deriving DecidableEq, Repr

namespace Date

/-- `Date::from_u16`: the year from 1980 in bits 9 to 15, the month in bits 5 to 8, the day in bits 0 to 4. -/
def fromU16 (dosDate : UInt16) : Date := ⟨(dosDate >>> 9) + 1980, (dosDate >>> 5) &&& 0xF, dosDate &&& 0x1F⟩

/-- `Date::to_u16`; `year - 1980` panics for a year before 1980. -/
def toU16 (date : Date) : Except Fault UInt16 :=
  if date.year < 1980 then .error subOverflowPanic
  else .ok (((date.year - 1980) <<< 9) ||| (date.month <<< 5) ||| date.day)

/-- A date the word holds: years 1980 to 2107, months below 16, days below 32. -/
def Fits (date : Date) : Prop :=
  1980 ≤ date.year.toNat ∧ date.year.toNat < 2108 ∧ date.month.toNat < 16 ∧ date.day.toNat < 32

instance (date : Date) : Decidable date.Fits := inferInstanceAs (Decidable (_ ∧ _))

/-- The fields `from_u16` unpacks, as naturals. -/
theorem toNat_fromU16 (w : UInt16) :
    (fromU16 w).year.toNat = w.toNat / 512 + 1980 ∧ (fromU16 w).month.toNat = w.toNat / 32 % 16 ∧
      (fromU16 w).day.toNat = w.toNat % 32 := by
  have hw := toNat_u16_lt w
  refine ⟨?_, ?_, ?_⟩
  · show ((w >>> 9) + 1980).toNat = _
    rw [toNat_u16_add, toNat_u16_shiftRight]
    show (w.toNat / 2 ^ 9 + 1980) % 65536 = _
    omega
  · show ((w >>> 5) &&& 15).toNat = _
    rw [UInt16.and_toNat, toNat_u16_shiftRight]
    exact Nat.and_pow_two_sub_one_eq_mod _ 4
  · show (w &&& 31).toNat = _
    rw [UInt16.and_toNat]
    exact Nat.and_pow_two_sub_one_eq_mod _ 5

/-- The word `to_u16` packs from fields that fit, as a natural. -/
theorem toU16_of_fits {date : Date} (h : date.Fits) :
    ∃ w, date.toU16 = .ok w ∧
      w.toNat = (date.year.toNat - 1980) * 512 + date.month.toNat * 32 + date.day.toNat := by
  obtain ⟨hy, hy', hm, hd⟩ := h
  refine ⟨_, if_neg (by rw [u16_lt_iff]; exact Nat.not_lt.mpr hy), ?_⟩
  rw [toNat_u16_or, toNat_u16_or, toNat_u16_shiftLeft, toNat_u16_shiftLeft, UInt16.toNat_sub_of_le _ _ hy]
  show (date.year.toNat - 1980) * 2 ^ 9 % 65536 ||| date.month.toNat * 2 ^ 5 % 65536 ||| date.day.toNat = _
  rw [Nat.mod_eq_of_lt (by omega : (date.year.toNat - 1980) * 2 ^ 9 < 65536),
    Nat.mod_eq_of_lt (by omega : date.month.toNat * 2 ^ 5 < 65536),
    or_eq_add_of_lt (k := 9) (by omega) (by omega : date.month.toNat * 2 ^ 5 < 2 ^ 9),
    or_eq_add_of_lt (k := 5) (by omega) (by omega : date.day.toNat < 2 ^ 5)]
  omega

/-- Every date `from_u16` unpacks fits the word. -/
theorem fits_fromU16 (w : UInt16) : (fromU16 w).Fits := by
  have hw := toNat_u16_lt w
  obtain ⟨hy, hm, hd⟩ := toNat_fromU16 w
  rw [Fits, hy, hm, hd]
  omega

/-- Decoding a date word and encoding it again gives the word back: `to_u16` never panics there. -/
theorem toU16_fromU16 (w : UInt16) : (fromU16 w).toU16 = .ok w := by
  obtain ⟨w', h, hw'⟩ := toU16_of_fits (fits_fromU16 w)
  obtain ⟨hy, hm, hd⟩ := toNat_fromU16 w
  rw [h, UInt16.toNat.inj (by rw [hw', hy, hm, hd]; omega : w'.toNat = w.toNat)]

end Date

namespace Time

/-- `Time::from_u16`: the hour in bits 11 to 15, the minute in bits 5 to 10, half the second in bits 0 to 4. -/
def fromU16 (dosTime : UInt16) : Time := ⟨dosTime >>> 11, (dosTime >>> 5) &&& 0x3F, (dosTime &&& 0x1F) * 2⟩

/-- `Time::to_u16`. -/
def toU16 (time : Time) : UInt16 := (time.hour <<< 11) ||| (time.min <<< 5) ||| (time.sec / 2)

/-- A time the word holds: hours below 32, minutes below 64, even seconds below 64. -/
def Fits (time : Time) : Prop :=
  time.hour.toNat < 32 ∧ time.min.toNat < 64 ∧ time.sec.toNat < 64 ∧ time.sec.toNat % 2 = 0

instance (time : Time) : Decidable time.Fits := inferInstanceAs (Decidable (_ ∧ _))

/-- The fields `from_u16` unpacks, as naturals. -/
theorem toNat_fromU16 (w : UInt16) :
    (fromU16 w).hour.toNat = w.toNat / 2048 ∧ (fromU16 w).min.toNat = w.toNat / 32 % 64 ∧
      (fromU16 w).sec.toNat = w.toNat % 32 * 2 := by
  refine ⟨?_, ?_, ?_⟩
  · show (w >>> 11).toNat = _
    rw [toNat_u16_shiftRight]
    rfl
  · show ((w >>> 5) &&& 63).toNat = _
    rw [UInt16.and_toNat, toNat_u16_shiftRight]
    exact Nat.and_pow_two_sub_one_eq_mod _ 6
  · show ((w &&& 31) * 2).toNat = _
    rw [toNat_u16_mul, UInt16.and_toNat]
    show (w.toNat &&& 2 ^ 5 - 1) * 2 % 65536 = _
    rw [Nat.and_pow_two_sub_one_eq_mod]
    omega

/-- The word `to_u16` packs from fields that fit, as a natural. -/
theorem toNat_toU16 {time : Time} (h : time.hour.toNat < 32 ∧ time.min.toNat < 64 ∧ time.sec.toNat < 64) :
    time.toU16.toNat = time.hour.toNat * 2048 + time.min.toNat * 32 + time.sec.toNat / 2 := by
  obtain ⟨hh, hm, hs⟩ := h
  rw [toU16, toNat_u16_or, toNat_u16_or, toNat_u16_shiftLeft, toNat_u16_shiftLeft, UInt16.toNat_div]
  show time.hour.toNat * 2 ^ 11 % 65536 ||| time.min.toNat * 2 ^ 5 % 65536 ||| time.sec.toNat / 2 = _
  rw [Nat.mod_eq_of_lt (by omega : time.hour.toNat * 2 ^ 11 < 65536),
    Nat.mod_eq_of_lt (by omega : time.min.toNat * 2 ^ 5 < 65536),
    or_eq_add_of_lt (k := 11) (by omega) (by omega : time.min.toNat * 2 ^ 5 < 2 ^ 11),
    or_eq_add_of_lt (k := 5) (by omega) (by omega : time.sec.toNat / 2 < 2 ^ 5)]
  omega

/-- Every time `from_u16` unpacks fits the word. -/
theorem fits_fromU16 (w : UInt16) : (fromU16 w).Fits := by
  have hw := toNat_u16_lt w
  obtain ⟨hh, hm, hs⟩ := toNat_fromU16 w
  rw [Fits, hh, hm, hs]
  omega

/-- Decoding a time word and encoding it again gives the word back. -/
theorem toU16_fromU16 (w : UInt16) : (fromU16 w).toU16 = w := by
  obtain ⟨hh, hm, hs, -⟩ := fits_fromU16 w
  refine UInt16.toNat.inj ?_
  rw [toNat_toU16 ⟨hh, hm, hs⟩]
  obtain ⟨hh, hm, hs⟩ := toNat_fromU16 w
  rw [hh, hm, hs]
  omega

end Time

/-- `DateTime::from_u16`. -/
def DateTime.fromU16 (dosDate dosTime : UInt16) : DateTime := ⟨Date.fromU16 dosDate, Time.fromU16 dosTime⟩

/-- `set_modified`: the date and the time as DOS words; the date is packed first. -/
def DirFileEntryData.setModified (d : DirFileEntryData) (dateTime : DateTime) : Except Fault DirFileEntryData := do
  let modifyDate ← dateTime.date.toU16
  return { d with modifyDate := modifyDate, modifyTime := dateTime.time.toU16 }

namespace DirEntry

/-- `DirEntry::created`. -/
def created (e : DirEntry) : DateTime := DateTime.fromU16 e.data.createDate e.data.createTime1

/-- `DirEntry::accessed`. -/
def accessed (e : DirEntry) : Date := Date.fromU16 e.data.accessDate

/-- `DirEntry::modified`. -/
def modified (e : DirEntry) : DateTime := DateTime.fromU16 e.data.modifyDate e.data.modifyTime

end DirEntry

/-- Writing back the modification time an entry reports changes nothing: it never panics, and both words stay. -/
theorem setModified_modified (e : DirEntry) : e.data.setModified e.modified = .ok e.data := by
  simp only [DirFileEntryData.setModified, DirEntry.modified, DateTime.fromU16, Date.toU16_fromU16,
    Time.toU16_fromU16]
  rfl

end FatDir
