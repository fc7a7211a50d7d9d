import FatDir.Runs

/-!
# The end of a directory's region

A directory's slots stop where its region does: the root region of FAT12/16 has a fixed size, and a chain ends with
its last cluster. What the code does there:

* A directory with no end slot, filled to the end of its stream, is read to the end: the iterator yields every
  expected entry and then the error of reading past the end, and `find_entry` of a name that no entry has returns
  that error, not `NotFound` (`full_dir_iter_eof`).
* `create_file_entry` in the root region, when the room `find_free_entries` found runs into the end of the region,
  writes the fragments that fit, the first of them over the free slot or the terminator it was given, and then
  fails with `WriteZero` (`createFileEntry_root_overflow`).
-/

namespace FatDir

/-! ## Reading a full directory -/

theorem firstEnd_of_no_end {slots : List Slot} (h : ∀ t, ¬IsEndAt slots t) : firstEnd slots = none :=
  firstEnd_eq_none fun j s _ _ hs => Bool.eq_false_iff.mpr fun he => h j ⟨s, hs, Slot.isEnd_of_isShortEnd he⟩

/-- A directory with no end slot of either shape: the iterator yields every expected entry, then the error of
reading past the end; `find_entry` of a name that no entry has returns that error. -/
theorem full_dir_iter_eof {st : DirStream} (hfull : ∀ t, ¬IsEndAt st.slots t) :
    DirIter.items st = (liveEntries st.slots st.slots.length).map .ok ++ [.error eofError] ∧
      ∀ name, (∀ e ∈ liveEntries st.slots st.slots.length, eqIgnoreAsciiCase e.fileName name = false) →
        findEntry st name = .error eofError := by
  have hitems : DirIter.items st = (liveEntries st.slots st.slots.length).map .ok ++ [.error eofError] := by
    rw [items_eq_iterSpec, iterSpec, firstEnd_of_no_end hfull]
  refine ⟨hitems, fun name hname => ?_⟩
  rw [findEntry, hitems, findIn_map_ok_append hname]
  rfl

theorem full_dir_iter_eof_a :
    let st := (createFileEntry ⟨List.replicate 2 zeroSlot, none⟩ "a").2
    (∀ t, ¬IsEndAt st.slots t) ∧
      (DirIter.items st = (liveEntries st.slots st.slots.length).map .ok ++ [.error eofError] ∧
        ∀ name, (∀ e ∈ liveEntries st.slots st.slots.length, eqIgnoreAsciiCase e.fileName name = false) →
          findEntry st name = .error eofError) :=
  have hs : ∀ s ∈ (createFileEntry ⟨List.replicate 2 zeroSlot, none⟩ "a").2.slots, s.decode.isEnd = false := by
    decide
  have hfull : ∀ t, ¬IsEndAt (createFileEntry ⟨List.replicate 2 zeroSlot, none⟩ "a").2.slots t :=
    fun _ ⟨s, h, he⟩ => by simp [hs s (List.getElem?_mem h)] at he
  ⟨hfull, full_dir_iter_eof hfull⟩

/-! ## A group that runs into the end of the root region -/

/-- `create_file_entry` of a non-empty ASCII name of at most 255 bytes in the root region, when the group does not
fit between the slot `find_free_entries` chose and the end of the region: the fragments that fit are written, the
first of them over the slot that was free or the terminator, and the call fails with `WriteZero`. -/
theorem createFileEntry_root_overflow {st : DirStream} {name : String} {start : Nat} (hroot : st.cluster = none)
    (ha : IsAscii name) (hpos : 0 < name.length) (hle : name.length ≤ 255)
    (hfree : findFreeEntries st (numLfnEntries (utf8 name).length + 1) = .ok start)
    (hover : st.slots.length < start + numLfnEntries (utf8 name).length + 1) :
    ∃ sn, genShortName name = .ok sn ∧ createFileEntry st name = (.error writeZeroError,
        { st with slots := st.slots.take start ++ (groupSlots name sn).take (st.slots.length - start) }) ∧
      ∃ s s', st.slots[start]? = some s ∧ (s.decode.isFree ∨ s.decode.isEnd) ∧
        (createFileEntry st name).2.slots[start]? = some s' ∧ s'.decode.isFree = false ∧ s'.decode.isEnd = false := by
  have hu : (encodeUtf16 name).length = (utf8 name).length := by
    rw [length_encodeUtf16_of_isAscii ha, length_utf8_of_isAscii ha]
  have hlen : (utf8 name).length ≤ 255 := by rw [length_utf8_of_isAscii ha]; exact hle
  have hN : 0 < numLfnEntries (utf8 name).length := by
    rw [numLfnEntries, length_utf8_of_isAscii ha, lfnPartLen]
    omega
  obtain ⟨sn, hsn, -⟩ := genShortName_of_lt (utf8_toUppercase_lt ha)
  obtain ⟨s, hs, hsfe⟩ : ∃ s, st.slots[start]? = some s ∧ (s.decode.isFree ∨ s.decode.isEnd) := by
    rcases (findFreeEntries_spec (Nat.succ_pos _) hfree).2 with hall | ⟨e, he₁, -, hfr, s, hs, hse⟩
    · obtain ⟨s, hs, hf⟩ := hall start le_rfl (by omega)
      exact ⟨s, hs, .inl hf⟩
    · rcases Nat.lt_or_eq_of_le he₁ with hlt | rfl
      · obtain ⟨s', hs', hf⟩ := hfr start le_rfl hlt
        exact ⟨s', hs', .inl hf⟩
      · exact ⟨s, hs, .inr hse⟩
  have hst : start < st.slots.length := (List.getElem?_eq_some_iff.mp hs).1
  rcases writeSlots_spec (groupSlots name sn) hst.le with ⟨hfit, -⟩ | ⟨-, -, hw⟩
  · rw [length_groupSlots] at hfit
    exact absurd hfit (by simp [hroot]; omega)
  have hcreate : createFileEntry st name = (.error writeZeroError,
      { st with slots := st.slots.take start ++ (groupSlots name sn).take (st.slots.length - start) }) := by
    rw [createFileEntry_eq_writeSlots hu hlen hfree hsn, hw]
  have hnew : (st.slots.take start ++ (groupSlots name sn).take (st.slots.length - start))[start]? =
      some (DirEntryData.lfn (lfnFragment (encodeUtf16 name) (utf8 name).length (numLfnEntries (utf8 name).length)
        (lfnChecksum sn) 0)).toSlot := by
    rw [List.getElem?_append_right (by simp), List.length_take, Nat.min_eq_left hst.le, Nat.sub_self,
      List.getElem?_take_of_lt (by omega), groupSlots, List.getElem?_append_left (by rw [length_lfnSlots]; exact hN),
      lfnSlots, List.getElem?_map, List.getElem?_range hN]
    rfl
  obtain ⟨hdec, hf, he⟩ := lfnFragment_live hu hlen (lfnChecksum sn) (i := 0) hN
  refine ⟨sn, hsn, hcreate, s, _, hs, hsfe, by rw [hcreate]; exact hnew, ?_, ?_⟩
  · simpa [hdec, DirEntryData.isFree] using hf
  · simpa [hdec, DirEntryData.isEnd] using he

theorem createFileEntry_root_overflow_a :
    let st : DirStream := ⟨[zeroSlot], none⟩
    (st.cluster = none ∧ IsAscii "a" ∧ 0 < "a".length ∧ "a".length ≤ 255 ∧
      findFreeEntries st (numLfnEntries (utf8 "a").length + 1) = .ok 0 ∧
      st.slots.length < 0 + numLfnEntries (utf8 "a").length + 1) ∧
    ∃ sn, genShortName "a" = .ok sn ∧ createFileEntry st "a" = (.error writeZeroError,
        { st with slots := st.slots.take 0 ++ (groupSlots "a" sn).take (st.slots.length - 0) }) ∧
      ∃ s s', st.slots[0]? = some s ∧ (s.decode.isFree ∨ s.decode.isEnd) ∧
        (createFileEntry st "a").2.slots[0]? = some s' ∧ s'.decode.isFree = false ∧ s'.decode.isEnd = false :=
  have h : (⟨[zeroSlot], none⟩ : DirStream).cluster = none ∧ IsAscii "a" ∧ 0 < "a".length ∧ "a".length ≤ 255 ∧
      findFreeEntries ⟨[zeroSlot], none⟩ (numLfnEntries (utf8 "a").length + 1) = .ok 0 ∧
      [zeroSlot].length < 0 + numLfnEntries (utf8 "a").length + 1 := by decide
  ⟨h, createFileEntry_root_overflow h.1 h.2.1 h.2.2.1 h.2.2.2.1 h.2.2.2.2.1 h.2.2.2.2.2⟩

end FatDir
