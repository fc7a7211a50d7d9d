import FatDir.Group

/-!
# Creating an entry, as the iterator sees it

A group written at slot `start` over a directory leaves the slots before `start` as they were, then the name's
fragments and its short slot, then whatever follows. The iterator reads the group back as one entry: its data is the
short entry written, its long name is the name's UTF-16 units, and its range ends with the group
(`liveAt_group_short`). The entries before the group are unchanged (`liveAt_group_lt`); after it, so are those that
followed a boundary (`liveAt_group_after`).

For a name that reads back as itself (`GoodName`: ASCII, 1 to 255 bytes, first and last character not NUL), over a
directory whose slots after the first terminator are all zero and that has room for the group and a terminator after
it, `create_file_entry` succeeds and the iterator then yields the entries it yielded before with the new one in its
place (`createFileEntry_iter`). The group goes into a free run, and the directory keeps its terminator
(`liveEntries_group_in_run`), or over the terminator into the zero slots after it, and the first of these is the new
terminator (`liveEntries_group_zeros`).

The lemmas on the group hold as well for the empty name, whose group is its short slot alone, written where a run
starts (`ReadsBack`): no fragment before it is then taken for its long name, and it reads back as the short name of
eleven spaces, the empty name (`RunName.fileName_eq`).
-/

namespace FatDir

/-- A name whose entry reads back as itself: ASCII, 1 to 255 bytes, first and last character not NUL. -/
structure GoodName (name : String) : Prop where
  ascii : IsAscii name
  pos : 0 < name.length
  le : name.length ≤ 255
  head_ne : name.data.head? ≠ some '\x00'
  last_ne : name.data.getLast? ≠ some '\x00'

namespace GoodName

variable {name : String} (h : GoodName name)
include h

theorem length_utf8 : (utf8 name).length = name.length := length_utf8_of_isAscii h.ascii

theorem length_encodeUtf16 : (encodeUtf16 name).length = (utf8 name).length := by
  rw [length_encodeUtf16_of_isAscii h.ascii, h.length_utf8]

/-- The long name read back from the name's fragments is the name's units: padding is cut off and nothing else. -/
theorem truncate_encodeUtf16 {p : List UInt16} (hp : ∀ u ∈ p, u = 0xFFFF ∨ u = 0) :
    LongNameBuilder.truncate (encodeUtf16 name ++ p) = encodeUtf16 name := by
  refine LongNameBuilder.truncate_append hp fun u hu => ?_
  rw [encodeUtf16_of_isAscii h.ascii, List.getLast?_map] at hu
  obtain ⟨c, hc, rfl⟩ := Option.mem_map.mp hu
  have hlt := h.ascii c (List.mem_of_mem_getLast? hc)
  have hc0 : c.toNat ≠ 0 := fun h0 => h.last_ne (by rw [Option.mem_def.mp hc, ← Char.ofNat_toNat c, h0])
  constructor <;> intro heq <;> have := congrArg UInt16.toNat heq <;> simp at this <;> omega

theorem fileName_eq {e : DirEntry} (he : e.lfn = encodeUtf16 name) : e.fileName = name := by
  have hpos : 0 < e.lfn.length := by rw [he, h.length_encodeUtf16, h.length_utf8]; exact h.pos
  rw [DirEntry.fileName, if_pos hpos, he, fromUtf16Lossy, decodeUtf16_encodeUtf16]

/-- The short name of a good name marks neither a free slot nor the end. -/
theorem genShortName : ∃ sn, FatDir.genShortName name = .ok sn ∧ sn.head ≠ 0 ∧ sn.head ≠ dirEntryFreeFlag := by
  obtain ⟨c, cs, hc⟩ : ∃ c cs, name.data = c :: cs := by
    have := h.pos
    cases hd : name.data with
    | nil => simp [String.length, hd] at this
    | cons c cs => exact ⟨c, cs, rfl⟩
  refine genShortName_of_isAscii h.ascii hc fun h0 => h.head_ne ?_
  rw [hc, ← Char.ofNat_toNat c, h0]
  rfl

end GoodName

/-- A name a run of calls may create: a good name, or the empty name, whose group is its short slot alone. -/
def RunName (name : String) : Prop := GoodName name ∨ name = ""

namespace RunName

variable {name : String} (h : RunName name)
include h

theorem length_utf8_le : (utf8 name).length ≤ 255 := by
  rcases h with h | rfl
  · exact h.length_utf8 ▸ h.le
  · decide

theorem length_encodeUtf16 : (encodeUtf16 name).length = (utf8 name).length := by
  rcases h with h | rfl
  · exact h.length_encodeUtf16
  · rfl

theorem genShortName : ∃ sn, FatDir.genShortName name = .ok sn ∧ sn.head ≠ 0 ∧ sn.head ≠ dirEntryFreeFlag := by
  rcases h with h | rfl
  · exact h.genShortName
  · exact ⟨⟨List.replicate 11 0x20, rfl⟩, by decide, by decide, by decide⟩

/-- The entry read back from the group has the name: the long name of a good name, or the short name of eleven
spaces, which reads as the empty name. -/
theorem fileName_eq {sn : Mathlib.Vector UInt8 11} (hsn : FatDir.genShortName name = .ok sn) {e : DirEntry}
    (hd : e.data = rawEntry sn) (he : e.lfn = encodeUtf16 name) : e.fileName = name := by
  rcases h with h | rfl
  · exact h.fileName_eq he
  · obtain rfl : sn = ⟨List.replicate 11 0x20, rfl⟩ := Except.ok.inj (hsn.symm.trans (by decide))
    rw [DirEntry.fileName, if_neg (by rw [he]; decide), DirEntry.shortFileName, hd]
    decide

end RunName

/-- A name whose group, written at `start` over `old`, reads back as itself: a good name, whose first fragment
starts its long name afresh, or the empty name written where a run starts, so that no fragment before it is taken
for its long name. -/
def ReadsBack (old : List Slot) (start : Nat) (name : String) : Prop :=
  GoodName name ∨ name = "" ∧ runStart old start = start

theorem ReadsBack.runName {old : List Slot} {start : Nat} {name : String} (h : ReadsBack old start name) :
    RunName name :=
  h.imp id And.left

/-! ## The slots of a group read back -/

/-- The order byte of a fragment, with or without the LAST flag, is neither 0 nor the free flag. -/
theorem order_ne : ∀ n, n < 32 → 0 < n → (UInt8.ofNat n ||| lfnEntryLastFlag) ≠ 0 ∧
    (UInt8.ofNat n ||| lfnEntryLastFlag) ≠ dirEntryFreeFlag ∧ UInt8.ofNat n ≠ 0 ∧ UInt8.ofNat n ≠ dirEntryFreeFlag := by
  decide

/-- A fragment of a name whose units are as many as its bytes is an LFN fragment, live and not a terminator. -/
theorem lfnFragment_live {units : List UInt16} {nameLen : Nat} (hu : units.length = nameLen) (hlen : nameLen ≤ 255)
    (chk : UInt8) {i : Nat} (hi : i < numLfnEntries nameLen) :
    (DirEntryData.lfn (lfnFragment units nameLen (numLfnEntries nameLen) chk i)).toSlot.decode =
        .lfn (lfnFragment units nameLen (numLfnEntries nameLen) chk i) ∧
      (lfnFragment units nameLen (numLfnEntries nameLen) chk i).isFree = false ∧
      (lfnFragment units nameLen (numLfnEntries nameLen) chk i).isEnd = false := by
  obtain ⟨hok, ha, -, -⟩ := lfnEntry_ok hu hlen chk hi
  obtain ⟨-, -, ho, -⟩ := lfnEntry_spec hok
  have h32 : numLfnEntries nameLen - i < 32 := by simp only [numLfnEntries, lfnPartLen] at hi ⊢; omega
  obtain ⟨o1, o2, o3, o4⟩ := order_ne _ h32 (by omega)
  refine ⟨Slot.decode_of_run (DirEntryData.run_toSlot (by simp only [DirEntryData.Shaped, ha]; rfl)), ?_, ?_⟩ <;>
    simp only [DirLfnEntryData.isFree, DirLfnEntryData.isEnd, ho, beq_eq_false_iff_ne] <;> split <;> assumption

@[simp] theorem rawEntry_name (sn : Mathlib.Vector UInt8 11) : (rawEntry sn).name = sn := rfl

theorem rawEntry_decode (sn : Mathlib.Vector UInt8 11) :
    (DirEntryData.file (rawEntry sn)).toSlot.decode = .file (rawEntry sn) :=
  Slot.decode_of_run (DirEntryData.run_toSlot (show (default : DirFileEntryData).attrs.contains .lfn = false by decide))

theorem rawEntry_volumeId (sn : Mathlib.Vector UInt8 11) : (rawEntry sn).attrs.contains .volumeId = false :=
  show (default : DirFileEntryData).attrs.contains .volumeId = false by decide

theorem rawEntry_isFree {sn : Mathlib.Vector UInt8 11} (h : sn.head ≠ dirEntryFreeFlag) : (rawEntry sn).isFree = false := by
  simpa [rawEntry, DirFileEntryData.isFree] using h

theorem rawEntry_isEnd {sn : Mathlib.Vector UInt8 11} (h : sn.head ≠ 0) : (rawEntry sn).isEnd = false := by
  simpa [rawEntry, DirFileEntryData.isEnd] using h

theorem lfnSlots_live {name : String} (hname : RunName name) (chk : UInt8) {s : Slot} (hs : s ∈ lfnSlots name chk) :
    ∃ d, s.decode = .lfn d ∧ d.isFree = false ∧ d.isEnd = false := by
  obtain ⟨i, hi, rfl⟩ := List.mem_map.mp hs
  obtain ⟨hdec, hf, he⟩ := lfnFragment_live hname.length_encodeUtf16 hname.length_utf8_le chk (List.mem_range.mp hi)
  exact ⟨_, hdec, hf, he⟩

/-- No slot of the group of a name a run may create is an end slot. -/
theorem groupSlots_not_end {name : String} (hname : RunName name) {sn : Mathlib.Vector UInt8 11} (hsn0 : sn.head ≠ 0) :
    ∀ s ∈ groupSlots name sn, s.decode.isEnd = false := by
  intro s hs
  rcases List.mem_append.mp hs with hs | hs
  · obtain ⟨d, hd, -, he⟩ := lfnSlots_live hname _ hs
    simp [hd, DirEntryData.isEnd, he]
  · rw [List.mem_singleton.mp hs, rawEntry_decode]
    exact rawEntry_isEnd hsn0

/-! ## A group written over a directory -/

section Written

variable {old R new : List Slot} {start : Nat} {name : String} {sn : Mathlib.Vector UInt8 11}
  (hname : ReadsBack old start name) (hsn0 : sn.head ≠ 0) (hsnF : sn.head ≠ dirEntryFreeFlag)
  (hstart : start ≤ old.length) (hnew : new = old.take start ++ groupSlots name sn ++ R)

include hstart in
theorem length_take_start : (old.take start).length = start := by
  rw [List.length_take, Nat.min_eq_left hstart]

include hstart hnew in
theorem getElem?_group_lt {j : Nat} (hj : j < start) : new[j]? = old[j]? := by
  rw [hnew, List.append_assoc, List.getElem?_append_left (by rw [length_take_start hstart]; exact hj),
    List.getElem?_take_of_lt hj]

include hstart hnew in
theorem getElem?_group {i : Nat} : new[start + i]? = (groupSlots name sn ++ R)[i]? := by
  rw [hnew, List.append_assoc, List.getElem?_append_right (by rw [length_take_start hstart]; omega),
    length_take_start hstart, Nat.add_sub_cancel_left]

include hstart hnew in
theorem getElem?_group_lfn {i : Nat} (hi : i < numLfnEntries (utf8 name).length) :
    new[start + i]? = some (DirEntryData.lfn (lfnFragment (encodeUtf16 name) (utf8 name).length
      (numLfnEntries (utf8 name).length) (lfnChecksum sn) i)).toSlot := by
  rw [getElem?_group hstart hnew, groupSlots, List.append_assoc, List.getElem?_append_left (by simpa using hi), lfnSlots,
    List.getElem?_map, List.getElem?_range hi]
  rfl

include hstart hnew in
theorem getElem?_group_short :
    new[start + numLfnEntries (utf8 name).length]? = some (DirEntryData.file (rawEntry sn)).toSlot := by
  rw [getElem?_group hstart hnew, groupSlots, List.append_assoc, List.getElem?_append_right (by simp)]
  simp

include hstart hnew in
theorem getElem?_group_after (k : Nat) : new[start + numLfnEntries (utf8 name).length + 1 + k]? = R[k]? := by
  rw [Nat.add_assoc, Nat.add_assoc, getElem?_group hstart hnew, List.getElem?_append_right (by simp),
    length_groupSlots, ← Nat.add_assoc, Nat.add_sub_cancel_left]

include hname hstart hnew in
/-- Fragment `i` of the group sits at `start + i`: an LFN slot that is no boundary and no terminator. -/
theorem group_lfn {j : Nat} (hj₁ : start ≤ j) (hj₂ : j < start + numLfnEntries (utf8 name).length) :
    ∃ s d, new[j]? = some s ∧ s.decode = .lfn d ∧ d.isFree = false ∧ d.isEnd = false := by
  obtain ⟨i, rfl⟩ := Nat.exists_eq_add_of_le hj₁
  obtain ⟨hdec, hf, he⟩ := lfnFragment_live hname.runName.length_encodeUtf16 hname.runName.length_utf8_le
    (lfnChecksum sn) (i := i) (by omega)
  exact ⟨_, _, getElem?_group_lfn hstart hnew (by omega), hdec, hf, he⟩

include hstart hnew in
theorem liveAt_group_lt {j : Nat} (hj : j < start) : liveAt new j = liveAt old j :=
  liveAt_congr (runStart_zero _) (runStart_zero _) (Nat.zero_le _) fun k _ hk =>
    getElem?_group_lt hstart hnew (by omega)

include hname hstart hnew in
theorem liveAt_group_lfn {j : Nat} (hj₁ : start ≤ j) (hj₂ : j < start + numLfnEntries (utf8 name).length) :
    liveAt new j = none := by
  obtain ⟨s, d, hs, hd, -, -⟩ := group_lfn hname hstart hnew hj₁ hj₂
  exact liveAt_of_lfn hs hd

include hsnF hstart hnew in
theorem runStart_group_after : runStart new (start + numLfnEntries (utf8 name).length + 1) =
    start + numLfnEntries (utf8 name).length + 1 :=
  runStart_of_boundary (getElem?_group_short hstart hnew)
    (Slot.isBoundary_of_file (rawEntry_decode sn) (rawEntry_isFree hsnF) (rawEntry_volumeId sn))

include hname hstart hnew in
/-- The fragments the iterator collects over the group are the name's fragments in writing order. -/
theorem fragmentsIn_group : fragmentsIn new start (start + numLfnEntries (utf8 name).length) =
    (List.range (numLfnEntries (utf8 name).length)).map
      (lfnFragment (encodeUtf16 name) (utf8 name).length (numLfnEntries (utf8 name).length) (lfnChecksum sn)) := by
  have htake : (new.take (start + numLfnEntries (utf8 name).length)).drop start = lfnSlots name (lfnChecksum sn) := by
    rw [hnew, groupSlots, List.append_assoc, List.append_assoc, List.take_append_eq_append_take,
      List.take_of_length_le (by rw [length_take_start hstart]; omega), length_take_start hstart,
      Nat.add_sub_cancel_left, List.take_left' (length_lfnSlots _ _), List.drop_left' (length_take_start hstart)]
  rw [fragmentsIn, htake, lfnSlots, List.filterMap_map, ← List.filterMap_eq_map]
  refine List.filterMap_congr fun i hi => ?_
  obtain ⟨hdec, hf, -⟩ := lfnFragment_live hname.runName.length_encodeUtf16 hname.runName.length_utf8_le
    (lfnChecksum sn) (List.mem_range.mp hi)
  rw [Function.comp_apply]
  exact Slot.liveFragment_of_lfn hdec hf

include hname hsnF hstart hnew in
/-- The iterator reads the group back as the entry of its short slot: the short entry written, the name's units as
its long name, and the range from the start of its run to the end of the group. -/
theorem liveAt_group_short : liveAt new (start + numLfnEntries (utf8 name).length) =
    some ⟨rawEntry sn, encodeUtf16 name,
      (dirEntrySize * runStart old start, dirEntrySize * (start + numLfnEntries (utf8 name).length + 1))⟩ := by
  have hrun : runStart new (start + numLfnEntries (utf8 name).length) = runStart old start := by
    rw [runStart_of_no_boundary _ (Nat.le_add_right _ _) fun j h₁ h₂ => ?_]
    · exact runStart_congr (by rw [runStart_zero, runStart_zero]) start (Nat.zero_le _)
        fun k _ hk => getElem?_group_lt hstart hnew hk
    · obtain ⟨s, d, hs, hd, hf, -⟩ := group_lfn hname hstart hnew h₁ h₂
      exact ⟨s, hs, Slot.isBoundary_of_lfn hd hf⟩
  have hfrag : fragmentsIn new (runStart old start) (start + numLfnEntries (utf8 name).length) =
      fragmentsIn old (runStart old start) start ++ (List.range (numLfnEntries (utf8 name).length)).map
        (lfnFragment (encodeUtf16 name) (utf8 name).length (numLfnEntries (utf8 name).length) (lfnChecksum sn)) := by
    rw [fragmentsIn_append (runStart_le _ _) (Nat.le_add_right _ _), fragmentsIn_group hname hstart hnew,
      fragmentsIn_congr fun k _ hk => getElem?_group_lt hstart hnew hk]
  rw [liveAt_of_file (getElem?_group_short hstart hnew) (rawEntry_decode sn) (rawEntry_isFree hsnF)
    (rawEntry_volumeId sn), entryAt, hrun, hfrag, LongNameBuilder.feed_append, rawEntry_name]
  rcases hname with hname | ⟨rfl, hstart'⟩
  · obtain ⟨h1, h2, h3⟩ := feed_lfnFragments hname.length_encodeUtf16 (by rw [hname.length_utf8]; exact hname.le)
      (by rw [hname.length_utf8]; exact hname.pos) (lfnChecksum sn)
      (LongNameBuilder.new.feed (fragmentsIn old (runStart old start) start))
    rw [LongNameBuilder.validateChksum_of_eq h2.symm, LongNameBuilder.toVec_of_index h1, h3,
      hname.truncate_encodeUtf16 fun u hu => ?_]
    split at hu
    · rcases List.mem_cons.mp hu with rfl | hu
      · exact .inr rfl
      · exact .inl (List.eq_of_mem_replicate hu)
    · cases hu
  · -- the empty name: no fragment, and none before it in its run
    rw [hstart', fragmentsIn_self, LongNameBuilder.validateChksum]
    split <;> rfl

include hname hsn0 hstart hnew in
theorem group_not_end {j : Nat} (hj₁ : start ≤ j) (hj₂ : j < start + numLfnEntries (utf8 name).length + 1) :
    ∃ s, new[j]? = some s ∧ s.decode.isEnd = false := by
  obtain ⟨i, rfl⟩ := Nat.exists_eq_add_of_le hj₁
  have hi : i < (groupSlots name sn).length := by rw [length_groupSlots]; omega
  rw [getElem?_group hstart hnew, List.getElem?_append_left hi, List.getElem?_eq_getElem hi]
  exact ⟨_, rfl, groupSlots_not_end hname.runName hsn0 _ (List.getElem_mem hi)⟩

include hstart hnew in
theorem liveEntries_group_start : liveEntries new start = liveEntries old start :=
  List.filterMap_congr fun _ hj => liveAt_group_lt hstart hnew (List.mem_range.mp hj)

include hname hsnF hstart hnew in
/-- Over the slots of the group, the iterator yields the new entry and nothing else. -/
theorem filterMap_group : (List.range' start (numLfnEntries (utf8 name).length + 1)).filterMap (liveAt new) =
    [⟨rawEntry sn, encodeUtf16 name,
      (dirEntrySize * runStart old start, dirEntrySize * (start + numLfnEntries (utf8 name).length + 1))⟩] := by
  rw [List.range'_concat, List.filterMap_append, filterMap_liveAt_eq_nil fun j h₁ h₂ =>
    liveAt_group_lfn hname hstart hnew h₁ h₂, Nat.one_mul, List.filterMap_cons,
    liveAt_group_short hname hsnF hstart hnew, List.filterMap_nil, List.nil_append]

include hsnF hstart hnew in
/-- After the group, over the slots that follow it in the old directory too, the entries are the old ones when the
old slot under the short slot was a boundary. -/
theorem liveAt_group_after {s : Slot} (hs : old[start + numLfnEntries (utf8 name).length]? = some s)
    (hb : s.IsBoundary = true) (hR : R = old.drop (start + numLfnEntries (utf8 name).length + 1)) {j : Nat}
    (hj : start + numLfnEntries (utf8 name).length + 1 ≤ j) : liveAt new j = liveAt old j := by
  refine liveAt_congr (runStart_group_after hsnF hstart hnew) (runStart_of_boundary hs hb) hj fun k hk _ => ?_
  obtain ⟨k, rfl⟩ := Nat.exists_eq_add_of_le hk
  rw [getElem?_group_after hstart hnew, hR, List.getElem?_drop]

end Written

/-! ## Where the iterator stops -/

theorem Slot.isEnd_of_isShortEnd {s : Slot} (h : s.isShortEnd = true) : s.decode.isEnd = true := by
  unfold Slot.isShortEnd at h
  cases hd : s.decode <;> simp_all [DirEntryData.isEnd]

theorem zeroSlot_isShortEnd : zeroSlot.isShortEnd = true := by decide

/-- In a directory whose slots after its first terminator `t` are zero, and which has a slot after `t`, the
iterator stops at `t` or, when `t` is shaped as an LFN slot, at the zero slot after it; it yields nothing from `t`
on. -/
theorem firstEnd_of_zero_after {slots : List Slot} {t : Nat} (hend : IsEndAt slots t)
    (hfirst : ∀ j < t, ¬IsEndAt slots j) (hzero : ∀ j, t < j → j < slots.length → slots[j]? = some zeroSlot)
    (ht : t + 1 < slots.length) :
    ∃ m, firstEnd slots = some m ∧ t ≤ m ∧ ∀ j, t ≤ j → j < m → liveAt slots j = none := by
  obtain ⟨s, hs, he⟩ := hend
  have hbefore : EndFree slots 0 t := fun j s' _ hj hs' =>
    Bool.eq_false_iff.mpr fun hse => hfirst j hj ⟨s', hs', Slot.isEnd_of_isShortEnd hse⟩
  cases hd : s.decode with
  | file d =>
    have hse : s.isShortEnd = true := by simpa [Slot.isShortEnd, hd, DirEntryData.isEnd] using he
    exact ⟨t, firstEnd_eq_some hs hse hbefore, le_rfl, fun j h₁ h₂ => absurd h₂ (by omega)⟩
  | lfn d =>
    refine ⟨t + 1, firstEnd_eq_some (hzero (t + 1) (by omega) ht) zeroSlot_isShortEnd fun j s' _ hj hs' => ?_,
      Nat.le_succ t, fun j h₁ h₂ => ?_⟩
    · rcases Nat.lt_or_ge j t with hlt | hge
      · exact hbefore j s' (Nat.zero_le _) hlt hs'
      · obtain rfl : j = t := by omega
        obtain rfl : s = s' := Option.some.inj (hs.symm.trans hs')
        exact Slot.isShortEnd_of_lfn hd
    · obtain rfl : j = t := by omega
      exact liveAt_of_lfn hs hd

/-! ## A group over a free run, or before zero slots -/

theorem Slot.isShortEnd_of_not_isEnd {s : Slot} (h : s.decode.isEnd = false) : s.isShortEnd = false :=
  Bool.eq_false_iff.mpr fun he => absurd (Slot.isEnd_of_isShortEnd he) (by simp [h])

/-- Slots none of which is an end slot, followed by zero slots: the first zero slot is the terminator. -/
theorem firstEnd_append_zeros : ∀ {A : List Slot} (r : Nat), (∀ s ∈ A, s.decode.isEnd = false) →
    firstEnd (A ++ List.replicate r zeroSlot) = if r = 0 then none else some A.length
  | [], 0, _ => rfl
  | [], r + 1, _ => by simp [List.replicate_succ, firstEnd, zeroSlot_isShortEnd]
  | a :: A, r, h => by
    rw [List.cons_append, firstEnd, if_neg (by rw [Slot.isShortEnd_of_not_isEnd (h a (List.mem_cons_self _ _))]; decide),
      firstEnd_append_zeros r fun s hs => h s (List.mem_cons_of_mem _ hs)]
    split <;> simp

theorem drop_eq_replicate_of_zero {slots : List Slot} {k : Nat}
    (h : ∀ j, k ≤ j → j < slots.length → slots[j]? = some zeroSlot) :
    slots.drop k = List.replicate (slots.length - k) zeroSlot := by
  refine List.eq_replicate_iff.mpr ⟨by simp, fun b hb => ?_⟩
  obtain ⟨j, hj⟩ := List.mem_iff_getElem?.mp hb
  rw [List.getElem?_drop] at hj
  exact Option.some.inj (hj.symm.trans (h (k + j) (by omega) (List.getElem?_eq_some_iff.mp hj).1))

section Placed

variable {old : List Slot} {start : Nat} {name : String} {sn : Mathlib.Vector UInt8 11}
  (hname : ReadsBack old start name) (hsn0 : sn.head ≠ 0) (hsnF : sn.head ≠ dirEntryFreeFlag)
  (hbefore : ∀ j < start, ¬IsEndAt old j)

include hbefore in
theorem take_not_end : ∀ s ∈ old.take start, s.decode.isEnd = false := by
  intro s hs
  obtain ⟨j, hj⟩ := List.mem_iff_getElem?.mp hs
  have hjs : j < start := by have := (List.getElem?_eq_some_iff.mp hj).1; simp at this; omega
  rw [List.getElem?_take_of_lt hjs] at hj
  exact Bool.eq_false_iff.mpr fun he => hbefore j hjs ⟨s, hj, he⟩

include hname hsn0 hbefore in
theorem take_group_not_end : ∀ s ∈ old.take start ++ groupSlots name sn, s.decode.isEnd = false := fun s hs => by
  rcases List.mem_append.mp hs with hs | hs
  · exact take_not_end hbefore s hs
  · exact groupSlots_not_end hname.runName hsn0 s hs

include hname hsn0 hsnF hbefore in
/-- The group written over a free run at `start`, with no end slot before it: the directory keeps its first
terminator and its length, and the iterator yields the entries it yielded before with the group's entry in the place
of the run. -/
theorem liveEntries_group_in_run
    (hall : ∀ j, start ≤ j → j < start + (numLfnEntries (utf8 name).length + 1) → IsFreeAt old j) :
    firstEnd (old.take start ++ groupSlots name sn ++ old.drop (start + numLfnEntries (utf8 name).length + 1)) =
        firstEnd old ∧
      (old.take start ++ groupSlots name sn ++ old.drop (start + numLfnEntries (utf8 name).length + 1)).length =
        old.length ∧
      ∃ post, liveEntries old ((firstEnd old).getD old.length) = liveEntries old start ++ post ∧
        liveEntries (old.take start ++ groupSlots name sn ++ old.drop (start + numLfnEntries (utf8 name).length + 1))
            ((firstEnd old).getD old.length) =
          liveEntries old start ++ ⟨rawEntry sn, encodeUtf16 name, (dirEntrySize * runStart old start,
            dirEntrySize * (start + numLfnEntries (utf8 name).length + 1))⟩ :: post := by
  obtain ⟨sL, hsL, hfL⟩ := hall (start + numLfnEntries (utf8 name).length) (by omega) (by omega)
  have hfit : start + numLfnEntries (utf8 name).length + 1 ≤ old.length := by
    have := (List.getElem?_eq_some_iff.mp hsL).1
    omega
  have hstart : start ≤ old.length := by omega
  have hnew := (rfl : old.take start ++ groupSlots name sn ++
    old.drop (start + numLfnEntries (utf8 name).length + 1) = _)
  have hM : start + (numLfnEntries (utf8 name).length + 1) ≤ (firstEnd old).getD old.length := by
    cases hm : firstEnd old with
    | none => simpa using hfit
    | some m =>
      obtain ⟨⟨s, hs, hse⟩, -⟩ := firstEnd_spec hm
      have hme : IsEndAt old m := ⟨s, hs, Slot.isEnd_of_isShortEnd hse⟩
      refine Nat.le_of_not_lt fun hlt => ?_
      rcases Nat.lt_or_ge m start with h | h
      · exact hbefore m h hme
      · exact not_isEndAt_of_isFreeAt (hall m h hlt) hme
  obtain ⟨k, hk⟩ := Nat.exists_eq_add_of_le hM
  refine ⟨firstEnd_congr fun j => ?_, by simp [Nat.min_eq_left hstart]; omega,
    (List.range' (start + (numLfnEntries (utf8 name).length + 1)) k).filterMap (liveAt old), ?_, ?_⟩
  · rcases Nat.lt_or_ge j start with h | h
    · rw [getElem?_group_lt hstart hnew h]
    rcases Nat.lt_or_ge j (start + numLfnEntries (utf8 name).length + 1) with h' | h'
    · obtain ⟨s, hs, he⟩ := group_not_end hname hsn0 hstart hnew h h'
      obtain ⟨s', hs', hf⟩ := hall j h (by omega)
      rw [hs, hs', Option.map_some', Option.map_some', Slot.isShortEnd_of_not_isEnd he, Slot.isShortEnd_of_free hf]
    · obtain ⟨i, rfl⟩ := Nat.exists_eq_add_of_le h'
      rw [getElem?_group_after hstart hnew, List.getElem?_drop]
  · rw [hk, liveEntries_add_add, filterMap_liveAt_eq_nil fun j h₁ h₂ => ?_, List.append_nil]
    obtain ⟨s, hs, hf⟩ := hall j h₁ h₂
    exact liveAt_of_free hs hf
  · rw [hk, liveEntries_add_add, liveEntries_group_start hstart hnew, filterMap_group hname hsnF hstart hnew,
      filterMap_liveAt_congr fun j h₁ _ =>
        liveAt_group_after hsnF hstart hnew hsL (Slot.isBoundary_of_free hfL) rfl (by omega)]
    simp

include hname hsn0 hsnF hbefore in
/-- The group written at `start` with no end slot before it, and then only zero slots: the first of these, if there
is one, is the terminator, and the iterator yields the entries before `start` and then the group's entry. -/
theorem liveEntries_group_zeros (hstart : start ≤ old.length) (r : Nat) :
    firstEnd (old.take start ++ groupSlots name sn ++ List.replicate r zeroSlot) =
        (if r = 0 then none else some (start + (numLfnEntries (utf8 name).length + 1))) ∧
      (firstEnd (old.take start ++ groupSlots name sn ++ List.replicate r zeroSlot)).getD
          (old.take start ++ groupSlots name sn ++ List.replicate r zeroSlot).length =
        start + (numLfnEntries (utf8 name).length + 1) ∧
      liveEntries (old.take start ++ groupSlots name sn ++ List.replicate r zeroSlot)
          (start + (numLfnEntries (utf8 name).length + 1)) =
        liveEntries old start ++ [⟨rawEntry sn, encodeUtf16 name, (dirEntrySize * runStart old start,
          dirEntrySize * (start + numLfnEntries (utf8 name).length + 1))⟩] := by
  have hlen : (old.take start ++ groupSlots name sn).length = start + (numLfnEntries (utf8 name).length + 1) := by
    simp [Nat.min_eq_left hstart]
  have hfe : firstEnd (old.take start ++ groupSlots name sn ++ List.replicate r zeroSlot) =
      (if r = 0 then none else some (start + (numLfnEntries (utf8 name).length + 1))) := by
    rw [firstEnd_append_zeros r (take_group_not_end hname hsn0 hbefore), hlen]
  refine ⟨hfe, by rw [hfe, List.length_append, hlen, List.length_replicate]; cases r <;> simp, ?_⟩
  rw [liveEntries_add, liveEntries_group_start hstart rfl, filterMap_group hname hsnF hstart rfl]

end Placed

/-! ## Creating an entry in a zero-terminated directory -/

/-- `create_file_entry` of a good name, over a directory whose slots after its first terminator are zero and that
has room for the name's group and a slot after it: the call succeeds at the slot `find_free_entries` chose, and the
iterator then yields the entries it yielded before, unchanged and in the same order, with one new entry in the place
of the group: its data is the short entry written, its file name is the name, and its range ends with the group and
starts at the start of the group's run (`runStart`): at the group, or at the first of the live LFN slots right before
it, which no entry claimed. -/
theorem createFileEntry_iter {st : DirStream} {name : String} {t : Nat} (hname : GoodName name)
    (hend : IsEndAt st.slots t) (hfirst : ∀ j < t, ¬IsEndAt st.slots j)
    (hzero : ∀ j, t < j → j < st.slots.length → st.slots[j]? = some zeroSlot)
    (hroom : t + numLfnEntries (utf8 name).length + 2 ≤ st.slots.length) :
    ∃ start sn e pre post, findFreeEntries st (numLfnEntries (utf8 name).length + 1) = .ok start ∧
      genShortName name = .ok sn ∧
      (createFileEntry st name).1 = .ok ⟨rawEntry sn, [], (dirEntrySize * start,
        dirEntrySize * (start + numLfnEntries (utf8 name).length + 1))⟩ ∧
      DirIter.items st = (pre ++ post).map .ok ∧
      DirIter.items (createFileEntry st name).2 = (pre ++ e :: post).map .ok ∧
      e.data = rawEntry sn ∧ e.fileName = name ∧ e.offsetRange.1 = dirEntrySize * runStart st.slots start ∧
      (∀ j, runStart st.slots start ≤ j → j < start → ∃ s, st.slots[j]? = some s ∧ s.liveFragment.isSome) ∧
      e.offsetRange.2 = dirEntrySize * (start + numLfnEntries (utf8 name).length + 1) ∧
      RangesOrdered (pre ++ e :: post) := by
  obtain ⟨start, hfree⟩ := findFreeEntries_ok_of_end hend (numLfnEntries (utf8 name).length + 1)
  obtain ⟨hbefore, hroomF⟩ := findFreeEntries_spec (Nat.succ_pos _) hfree
  obtain ⟨sn, hsn, hsn0, hsnF⟩ := hname.genShortName
  have hst : start ≤ t := Nat.le_of_not_lt fun h => hbefore t h hend
  have hlfn : ∀ j, runStart st.slots start ≤ j → j < start → ∃ s, st.slots[j]? = some s ∧ s.liveFragment.isSome :=
    fun j h₁ h₂ => ⟨_, List.getElem?_eq_getElem (by omega),
      Slot.liveFragment_isSome (not_boundary_of_run h₁ h₂ (List.getElem?_eq_getElem (by omega)))⟩
  have hcreate : createFileEntry st name = (.ok ⟨rawEntry sn, [], (dirEntrySize * start,
      dirEntrySize * (start + numLfnEntries (utf8 name).length + 1))⟩, { st with slots := (st.slots.take start ++
        groupSlots name sn ++ st.slots.drop (start + numLfnEntries (utf8 name).length + 1)) }) := by
    rw [createFileEntry_eq_writeSlots hname.length_encodeUtf16 (hname.length_utf8 ▸ hname.le) hfree hsn,
      writeSlots_of_le (by rw [length_groupSlots]; omega), length_groupSlots, ← Nat.add_assoc]
  obtain ⟨m, hm, htm, hnone⟩ := firstEnd_of_zero_after hend hfirst hzero (by omega)
  rw [hcreate, items_eq_iterSpec, items_eq_iterSpec, iterSpec_eq, iterSpec_eq, hm]
  refine ⟨start, sn, ⟨rawEntry sn, encodeUtf16 name, (dirEntrySize * runStart st.slots start,
    dirEntrySize * (start + numLfnEntries (utf8 name).length + 1))⟩, liveEntries st.slots start, ?_⟩
  rcases hroomF with hall | ⟨e', -, he', hfr, hend'⟩
  · -- room in a free run: the entries after it stay
    obtain ⟨hfe, hlen, post, hold, hnew⟩ := liveEntries_group_in_run (.inl hname) hsn0 hsnF hbefore hall
    rw [hm, Option.getD_some] at hold hnew
    rw [hfe, hlen, hm, Option.getD_some]
    exact ⟨post, hfree, hsn, rfl, by rw [hold]; simp, by rw [hnew]; simp, rfl, hname.fileName_eq rfl, rfl, hlfn, rfl,
      hnew ▸ rangesOrdered_liveEntries _ m⟩
  · -- room over the terminator: the new entry is the last one
    obtain rfl : e' = t := by
      rcases Nat.lt_trichotomy e' t with h | h | h
      · exact absurd hend' (hfirst e' h)
      · exact h
      · exact absurd hend (not_isEndAt_of_isFreeAt (hfr t hst h))
    have hold : (List.range' start (m - start)).filterMap (liveAt st.slots) = [] :=
      filterMap_liveAt_eq_nil fun j h₁ h₂ => by
        rcases Nat.lt_or_ge j e' with hlt | hge
        · obtain ⟨s, hs, hsf⟩ := hfr j h₁ hlt
          exact liveAt_of_free hs hsf
        · exact hnone j hge (by omega)
    obtain ⟨hfe, -, hnew⟩ := liveEntries_group_zeros (.inl hname) hsn0 hsnF hbefore (by omega)
      (st.slots.length - (start + numLfnEntries (utf8 name).length + 1))
    rw [if_neg (by omega)] at hfe
    rw [drop_eq_replicate_of_zero fun j h₁ h₂ => hzero j (by omega) h₂, hfe]
    refine ⟨[], hfree, hsn, rfl, ?_, by rw [Option.getD_some, hnew]; simp, rfl, hname.fileName_eq rfl, rfl, hlfn, rfl,
      by simpa [← hnew] using rangesOrdered_liveEntries _ _⟩
    rw [Option.getD_some, ← Nat.add_sub_cancel' (hst.trans htm), liveEntries_add, hold]
    simp

/-- A live LFN slot that no entry claims, then the terminator and two zero slots: the group of `a` takes slots 1 and
2, and the entry the iterator yields for it has its range from slot 0, where the run of LFN slots starts. -/
theorem createFileEntry_iter_orphan :
    let frag : Slot := (DirEntryData.lfn (DirLfnEntryData.mk 0x41 ⟨[0x78, 0, 0xFFFF, 0xFFFF, 0xFFFF], rfl⟩
      FileAttributes.lfn 0 0 ⟨List.replicate 6 0xFFFF, rfl⟩ 0 ⟨[0xFFFF, 0xFFFF], rfl⟩)).toSlot
    let st : DirStream := ⟨[frag, zeroSlot, zeroSlot, zeroSlot], none⟩
    GoodName "a" ∧ IsEndAt st.slots 1 ∧ (∀ j < 1, ¬IsEndAt st.slots j) ∧
      (∀ j, 1 < j → j < st.slots.length → st.slots[j]? = some zeroSlot) ∧
      1 + numLfnEntries (utf8 "a").length + 2 ≤ st.slots.length ∧
      ∃ start sn e pre post, findFreeEntries st (numLfnEntries (utf8 "a").length + 1) = .ok start ∧
        genShortName "a" = .ok sn ∧
        (createFileEntry st "a").1 = .ok ⟨rawEntry sn, [], (dirEntrySize * start,
          dirEntrySize * (start + numLfnEntries (utf8 "a").length + 1))⟩ ∧
        DirIter.items st = (pre ++ post).map .ok ∧
        DirIter.items (createFileEntry st "a").2 = (pre ++ e :: post).map .ok ∧
        e.data = rawEntry sn ∧ e.fileName = "a" ∧ e.offsetRange.1 = dirEntrySize * runStart st.slots start ∧
        (∀ j, runStart st.slots start ≤ j → j < start → ∃ s, st.slots[j]? = some s ∧ s.liveFragment.isSome) ∧
        e.offsetRange.2 = dirEntrySize * (start + numLfnEntries (utf8 "a").length + 1) ∧
        RangesOrdered (pre ++ e :: post) :=
  have hname : GoodName "a" := ⟨by decide, by decide, by decide, by decide, by decide⟩
  have hend : IsEndAt [(DirEntryData.lfn (DirLfnEntryData.mk 0x41 ⟨[0x78, 0, 0xFFFF, 0xFFFF, 0xFFFF], rfl⟩
      FileAttributes.lfn 0 0 ⟨List.replicate 6 0xFFFF, rfl⟩ 0 ⟨[0xFFFF, 0xFFFF], rfl⟩)).toSlot, zeroSlot, zeroSlot,
      zeroSlot] 1 := ⟨zeroSlot, rfl, by decide⟩
  have hfirst : ∀ j < 1, ¬IsEndAt [(DirEntryData.lfn (DirLfnEntryData.mk 0x41 ⟨[0x78, 0, 0xFFFF, 0xFFFF, 0xFFFF], rfl⟩
      FileAttributes.lfn 0 0 ⟨List.replicate 6 0xFFFF, rfl⟩ 0 ⟨[0xFFFF, 0xFFFF], rfl⟩)).toSlot, zeroSlot, zeroSlot,
      zeroSlot] j := by
    rintro j hj ⟨s, hs, he⟩
    obtain rfl : j = 0 := by omega
    cases hs
    exact absurd he (by decide)
  have hzero : ∀ j, 1 < j → j < 4 → [(DirEntryData.lfn (DirLfnEntryData.mk 0x41 ⟨[0x78, 0, 0xFFFF, 0xFFFF, 0xFFFF],
      rfl⟩ FileAttributes.lfn 0 0 ⟨List.replicate 6 0xFFFF, rfl⟩ 0 ⟨[0xFFFF, 0xFFFF], rfl⟩)).toSlot, zeroSlot, zeroSlot,
      zeroSlot][j]? = some zeroSlot := by
    intro j h₁ h₂
    rcases j with _ | _ | _ | _ | j <;> first | rfl | omega
  have hroom : 1 + numLfnEntries (utf8 "a").length + 2 ≤ 4 := by decide
  ⟨hname, hend, hfirst, hzero, hroom, createFileEntry_iter hname hend hfirst hzero hroom⟩

/-- A name that starts with NUL gets a short slot that reads as the terminator: the call succeeds over three zero
slots, and the iterator yields nothing. A name that ends with NUL reads back without it. -/
theorem createFileEntry_nul_names :
    let st : DirStream := ⟨[zeroSlot, zeroSlot, zeroSlot], none⟩
    DirIter.items st = [] ∧
      ((createFileEntry st "\x00").1.map (·.offsetRange) = .ok (0, 64) ∧
        DirIter.items (createFileEntry st "\x00").2 = []) ∧
      ((createFileEntry st "a\x00").1.map (·.offsetRange) = .ok (0, 64) ∧
        (DirIter.items (createFileEntry st "a\x00").2).map (Except.map DirEntry.fileName) = [.ok "a"]) := by
  decide

end FatDir
