import FatDir.Create
import FatDir.Locality

/-!
# The slot group of a name

`create_file_entry` builds each fragment inside its write loop and writes the short slot after it. For a name whose
fragments all build, which is every ASCII name of at most 255 bytes, the call is one write of a list of slots, the
name's group (`groupSlots`), at the slot `find_free_entries` chose (`createFileEntry_eq_writeSlots`).

* Written inside the stream, the group replaces its own slots and nothing else (`writeSlots_of_le`); written up to
  or past the end, a chain takes all of it, growing by zero-filled clusters, and the root region takes the slots
  that fit and fails (`writeSlots_spec`).
* The short name of an ASCII name that does not start with NUL is neither the end mark nor the free mark
  (`genShortName_of_isAscii`).
-/

namespace FatDir

/-! ## Writing a list of slots -/

/-- Write the slots `ws` one after the other from slot `i`, stopping at the first write that fails. -/
def writeSlots (st : DirStream) (i : Nat) : List Slot → Except Fault Unit × DirStream
  | [] => (.ok (), st)
  | w :: ws =>
    match st.writeSlot i w with
    | .error f => (.error f, st)
    | .ok st' => writeSlots st' (i + 1) ws

theorem writeSlots_append (st : DirStream) (i : Nat) (xs ys : List Slot) :
    writeSlots st i (xs ++ ys) =
      match writeSlots st i xs with
      | (.ok (), st') => writeSlots st' (i + xs.length) ys
      | (.error f, st') => (.error f, st') := by
  induction xs generalizing st i with
  | nil => rfl
  | cons x xs ih =>
    rw [List.cons_append, writeSlots, writeSlots]
    cases st.writeSlot i x with
    | error f => rfl
    | ok st' =>
      dsimp only
      rw [ih, List.length_cons, Nat.add_comm xs.length 1, ← Nat.add_assoc]

/-- Slots written inside the stream replace the slots they are written over, and nothing else. -/
theorem writeSlots_of_le : ∀ {st : DirStream} {i : Nat} {ws : List Slot}, i + ws.length ≤ st.slots.length →
    writeSlots st i ws = (.ok (), { st with slots := st.slots.take i ++ ws ++ st.slots.drop (i + ws.length) })
  | st, i, [], _ => by simp [writeSlots]
  | st, i, w :: ws, h => by
    have hi : i < st.slots.length := by simp only [List.length_cons] at h; omega
    have hl : i + 1 + ws.length ≤ (st.slots.set i w).length := by
      simp only [List.length_cons, List.length_set] at h ⊢
      omega
    have htake : (st.slots.set i w).take (i + 1) = st.slots.take i ++ [w] := by
      simp [List.set_eq_take_append_cons_drop, hi, List.take_append_eq_append_take, Nat.min_eq_left hi.le]
    have hidx : i + 1 + ws.length = i + (w :: ws).length := by simp only [List.length_cons]; omega
    rw [writeSlots, DirStream.writeSlot_of_lt w hi]
    dsimp only
    rw [writeSlots_of_le hl, htake, List.drop_set_of_lt _ _ (by omega), hidx]
    simp

/-- Slots written from a point inside the stream or at its end: a chain takes them all, growing by zero-filled
clusters, and the root region takes those that fit and then fails. -/
theorem writeSlots_spec : ∀ {st : DirStream} {i : Nat} (ws : List Slot), i ≤ st.slots.length →
    ((i + ws.length ≤ st.slots.length ∨ st.cluster ≠ none) ∧ ∃ m, writeSlots st i ws = (.ok (), { st with slots := (
      st.slots.take i ++ ws ++ (st.slots.drop (i + ws.length) ++ List.replicate m zeroSlot)) })) ∨
    (st.cluster = none ∧ st.slots.length < i + ws.length ∧
      writeSlots st i ws = (.error writeZeroError, { st with slots := st.slots.take i ++ ws.take (st.slots.length - i) }))
  | st, i, [], hi => .inl ⟨.inl hi, 0, by simp [writeSlots]⟩
  | st, i, w :: ws, hi => by
    rw [List.length_cons, show i + (ws.length + 1) = i + 1 + ws.length by omega]
    rcases Nat.lt_or_eq_of_le hi with hlt | rfl
    · have hl : i + 1 ≤ (st.slots.set i w).length := by rw [List.length_set]; omega
      have htake : (st.slots.set i w).take (i + 1) = st.slots.take i ++ [w] := by
        simp [List.set_eq_take_append_cons_drop, hlt, List.take_append_eq_append_take, Nat.min_eq_left hlt.le]
      rw [writeSlots, DirStream.writeSlot_of_lt w hlt]
      dsimp only
      rcases @writeSlots_spec { st with slots := st.slots.set i w } (i + 1) ws hl with ⟨hfit, m, h⟩ | ⟨hc, hlen, h⟩
      · refine .inl ⟨by simpa [Nat.add_assoc, Nat.add_comm 1] using hfit, m, ?_⟩
        rw [h]
        dsimp only
        rw [htake, List.drop_set_of_lt _ _ (by omega)]
        simp
      · refine .inr ⟨hc, by simpa using hlen, ?_⟩
        rw [h]
        dsimp only
        rw [htake, List.length_set, show st.slots.length - i = st.slots.length - (i + 1) + 1 by omega,
          List.take_succ_cons]
        simp
    · cases hc : st.cluster with
      | none =>
        refine .inr ⟨rfl, by omega, ?_⟩
        cases st
        simp_all [writeSlots, DirStream.writeSlot]
      | some k =>
        rw [writeSlots, DirStream.writeSlot_grow w hc]
        dsimp only
        rcases @writeSlots_spec { st with slots := st.slots ++ w :: List.replicate (k - 1) zeroSlot }
          (st.slots.length + 1) ws (by simp) with ⟨-, m, h⟩ | ⟨hc', -, -⟩
        · refine .inl ⟨.inr (by simp [hc]), k - 1 - ws.length + m, ?_⟩
          have h₁ : (st.slots ++ w :: List.replicate (k - 1) zeroSlot).take (st.slots.length + 1) =
              st.slots ++ [w] := by
            simp [List.take_append_eq_append_take]
          have h₂ : (st.slots ++ w :: List.replicate (k - 1) zeroSlot).drop (st.slots.length + 1 + ws.length) =
              List.replicate (k - 1 - ws.length) zeroSlot := by
            rw [List.drop_append_eq_append_drop, List.drop_of_length_le (by omega),
              show st.slots.length + 1 + ws.length - st.slots.length = ws.length + 1 by omega]
            simp [List.drop_replicate]
          rw [h]
          dsimp only
          rw [h₁, h₂, List.take_of_length_le le_rfl, List.drop_of_length_le (by omega), List.replicate_add]
          simp [hc]
        · simp [hc] at hc'

/-! ## The group -/

/-- The short entry `create_file_entry` writes: the default entry with the short name. -/
def rawEntry (sn : Mathlib.Vector UInt8 11) : DirFileEntryData := { (default : DirFileEntryData) with name := sn }

/-- The fragment slots of a name, in writing order. -/
def lfnSlots (name : String) (chk : UInt8) : List Slot :=
  (List.range (numLfnEntries (utf8 name).length)).map fun i =>
    (DirEntryData.lfn (lfnFragment (encodeUtf16 name) (utf8 name).length (numLfnEntries (utf8 name).length) chk i)).toSlot

/-- The group of a name: its fragment slots, then its short slot. -/
def groupSlots (name : String) (sn : Mathlib.Vector UInt8 11) : List Slot :=
  lfnSlots name (lfnChecksum sn) ++ [(DirEntryData.file (rawEntry sn)).toSlot]

@[simp] theorem length_lfnSlots (name : String) (chk : UInt8) :
    (lfnSlots name chk).length = numLfnEntries (utf8 name).length := by
  simp [lfnSlots]

@[simp] theorem length_groupSlots (name : String) (sn : Mathlib.Vector UInt8 11) :
    (groupSlots name sn).length = numLfnEntries (utf8 name).length + 1 := by
  simp [groupSlots]

section Ascii

variable {units : List UInt16} {nameLen : Nat}

/-- When every fragment builds, the write loop writes the fragment slots from its index on. -/
theorem writeLfnLoop_eq_writeSlots (hu : units.length = nameLen) (hlen : nameLen ≤ 255) (chk : UInt8)
    (start : Nat) : ∀ (k i : Nat) (st : DirStream), i + k = numLfnEntries nameLen →
      writeLfnLoop units nameLen (numLfnEntries nameLen) chk start k i st =
        writeSlots st (start + i) ((List.range' i k).map fun j =>
          (DirEntryData.lfn (lfnFragment units nameLen (numLfnEntries nameLen) chk j)).toSlot)
  | 0, _, _, _ => rfl
  | k + 1, i, st, hk => by
    rw [writeLfnLoop, (lfnEntry_ok hu hlen chk (i := i) (by omega)).1, List.range'_succ, List.map_cons, writeSlots]
    dsimp only
    cases st.writeSlot (start + i) _ with
    | error f => rfl
    | ok st' =>
      dsimp only
      rw [writeLfnLoop_eq_writeSlots hu hlen chk start k (i + 1) st' (by omega), Nat.add_assoc]

end Ascii

/-- For a name whose UTF-16 units are as many as its bytes, `create_file_entry` writes the name's group at the slot
`find_free_entries` chose, and returns the new entry if every write went through. -/
theorem createFileEntry_eq_writeSlots {st : DirStream} {name : String} {start : Nat}
    {sn : Mathlib.Vector UInt8 11} (hu : (encodeUtf16 name).length = (utf8 name).length)
    (hlen : (utf8 name).length ≤ 255) (hfree : findFreeEntries st (numLfnEntries (utf8 name).length + 1) = .ok start)
    (hsn : genShortName name = .ok sn) :
    createFileEntry st name =
      match writeSlots st start (groupSlots name sn) with
      | (.ok (), st') => (.ok ⟨rawEntry sn, [], (dirEntrySize * start,
          dirEntrySize * (start + numLfnEntries (utf8 name).length + 1))⟩, st')
      | (.error f, st') => (.error f, st') := by
  unfold createFileEntry
  rw [if_neg (by omega)]
  simp only [hfree, hsn]
  rw [writeLfnLoop_eq_writeSlots hu hlen _ start _ 0 st (Nat.zero_add _), groupSlots, writeSlots_append, lfnSlots,
    List.range_eq_range', Nat.add_zero]
  cases writeSlots st start _ with
  | mk r st₁ =>
    cases r with
    | error f => rfl
    | ok u =>
      simp only [List.length_map, List.length_range', writeSlots, rawEntry]
      cases st₁.writeSlot _ _ <;> rfl

/-! ## Short names of ASCII names -/

/-- Every position of a string of ASCII bytes, up to its end, is a character boundary. -/
theorem isCharBoundary_of_lt {bytes : List UInt8} (h : ∀ b ∈ bytes, b.toNat < 0x80) {k : Nat}
    (hk : k ≤ bytes.length) : isCharBoundary bytes k = true := by
  rcases Nat.lt_or_ge k bytes.length with hlt | hge
  · have hb := h bytes[k] (List.getElem_mem hlt)
    simp only [isCharBoundary, List.getElem?_eq_getElem hlt, isCont, Bool.or_eq_true, beq_iff_eq]
    right
    simp only [Bool.not_eq_true', Bool.and_eq_false_iff, decide_eq_false_iff_not, Nat.not_le]
    exact .inl hb
  · simp [isCharBoundary, show k = bytes.length by omega]

theorem rfindByte_lt {b : UInt8} : ∀ {l : List UInt8} {j : Nat}, rfindByte b l = some j → j < l.length
  | [], _, h => by simp [rfindByte] at h
  | x :: xs, j, h => by
    simp only [rfindByte] at h
    split at h
    · cases h
      simpa using rfindByte_lt ‹_›
    · split at h
      · cases h
        simp
      · cases h

theorem head?_padShortName (base ext : List UInt8) : (padShortName base ext).head? = some (base.headD 0x20) := by
  cases base <;> simp [padShortName]

theorem headD_take (l : List UInt8) (k : Nat) (d : UInt8) : (l.take k).headD d = if k = 0 then d else l.headD d := by
  cases l <;> cases k <;> simp

/-- `gen_short_name` of a name whose upper-case bytes are ASCII never panics: it pads the bytes before the last dot,
at most 8 of them, and up to 3 bytes from the dot on (the whole name and no extension when there is no dot). -/
theorem genShortName_toList {name : String} (h : ∀ b ∈ utf8 (toUppercase name), b.toNat < 0x80) :
    ∃ sn, genShortName name = .ok sn ∧ sn.toList =
      match rfindByte 0x2E (utf8 (toUppercase name)) with
      | some index => padShortName (((utf8 (toUppercase name)).take index).take 8)
          (((utf8 (toUppercase name)).drop index).take (min ((utf8 (toUppercase name)).length - index - 1) 3))
      | none => padShortName ((utf8 (toUppercase name)).take 8) [] := by
  have hb : ∀ k, k ≤ (utf8 (toUppercase name)).length → isCharBoundary (utf8 (toUppercase name)) k = true :=
    fun _ hk => isCharBoundary_of_lt h hk
  unfold genShortName
  dsimp only
  cases hr : rfindByte 0x2E (utf8 (toUppercase name)) with
  | none =>
    simp only [Except.bind, isCharBoundary_of_lt h (Nat.min_le_left _ _), if_true]
    exact ⟨_, rfl, congrArg (padShortName · []) (List.take_eq_take.mpr (by omega))⟩
  | some index =>
    have hi := rfindByte_lt hr
    have hbase : ∀ b ∈ (utf8 (toUppercase name)).take index, b.toNat < 0x80 := fun b hb' =>
      h b (List.mem_of_mem_take hb')
    simp only [hb _ hi.le, hb _ (show index + min ((utf8 (toUppercase name)).length - index - 1) 3 ≤ _ by omega),
      Bool.not_true, Bool.false_eq_true, if_false, Except.bind, isCharBoundary_of_lt hbase (Nat.min_le_left _ _),
      if_true]
    exact ⟨_, rfl, congrArg (padShortName · _) (List.take_eq_take.mpr (by omega))⟩

/-- The short name of a name whose upper-case bytes are ASCII: `gen_short_name` never panics, and its first byte is
a space or the first byte of the upper-case name. -/
theorem genShortName_of_lt {name : String} (h : ∀ b ∈ utf8 (toUppercase name), b.toNat < 0x80) :
    ∃ sn, genShortName name = .ok sn ∧
      (sn.toList.head? = some 0x20 ∨ sn.toList.head? = some ((utf8 (toUppercase name)).headD 0x20)) := by
  obtain ⟨sn, hsn, hl⟩ := genShortName_toList h
  refine ⟨sn, hsn, ?_⟩
  rw [hl]
  split
  · next index _ =>
    rw [head?_padShortName, headD_take, headD_take]
    by_cases hi : index = 0 <;> simp [hi]
  · rw [head?_padShortName, headD_take]
    exact .inr rfl

theorem toNat_toUpper {c : Char} (h : c.toNat < 0x80) :
    (Char.toUpper c).toNat < 0x80 ∧ ((Char.toUpper c).toNat = 0 → c.toNat = 0) := by
  unfold Char.toUpper
  dsimp only
  split
  · have hv : Nat.isValidChar (c.toNat - 32) := Or.inl (by omega)
    rw [Char.ofNat, dif_pos hv]
    show c.toNat - 32 < 128 ∧ (c.toNat - 32 = 0 → c.toNat = 0)
    omega
  · exact ⟨h, id⟩

theorem isAscii_toUppercase {name : String} (h : IsAscii name) : IsAscii (toUppercase name) := by
  intro c hc
  rw [toUppercase_of_isAscii h] at hc
  obtain ⟨c', hc', rfl⟩ := List.mem_map.mp hc
  exact (toNat_toUpper (h c' hc')).1

/-- The bytes of an ASCII string are ASCII. -/
theorem utf8_lt_of_isAscii {s : String} (h : IsAscii s) : ∀ b ∈ utf8 s, b.toNat < 0x80 := by
  rw [utf8_of_isAscii h]
  intro b hb
  obtain ⟨d, hd, rfl⟩ := List.mem_map.mp hb
  have := h d hd
  rw [toNat_u8_ofNat]
  omega

theorem utf8_toUppercase_lt {name : String} (h : IsAscii name) : ∀ b ∈ utf8 (toUppercase name), b.toNat < 0x80 :=
  utf8_lt_of_isAscii (isAscii_toUppercase h)

/-- An ASCII name that does not start with NUL has a short name whose first byte marks neither a free slot nor the
end of the directory. -/
theorem genShortName_of_isAscii {name : String} {c : Char} {cs : List Char} (h : IsAscii name)
    (hc : name.data = c :: cs) (hc0 : c.toNat ≠ 0) :
    ∃ sn, genShortName name = .ok sn ∧ sn.head ≠ 0 ∧ sn.head ≠ dirEntryFreeFlag := by
  have hup := isAscii_toUppercase h
  obtain ⟨sn, hsn, hh⟩ := genShortName_of_lt (utf8_toUppercase_lt h)
  have hfirst : (utf8 (toUppercase name)).headD 0x20 = UInt8.ofNat (Char.toUpper c).toNat := by
    rw [utf8_of_isAscii hup, toUppercase_of_isAscii h]
    simp [hc]
  have hcu := toNat_toUpper (h c (by simp [hc]))
  have hsnh : sn.toList.head? = some sn.head := by
    obtain ⟨l, hl⟩ := sn
    cases l with
    | nil => cases hl
    | cons a l => rfl
  refine ⟨sn, hsn, ?_⟩
  rw [hsnh, hfirst] at hh
  rcases hh with hh | hh <;> rw [Option.some.inj hh]
  · decide
  · constructor
    · intro h0
      have h1 : (UInt8.ofNat (Char.toUpper c).toNat).toNat = 0 := by rw [h0]; rfl
      rw [toNat_u8_ofNat] at h1
      exact hc0 (hcu.2 (by omega))
    · intro h0
      have h1 : (UInt8.ofNat (Char.toUpper c).toNat).toNat = 229 := by rw [h0]; rfl
      rw [toNat_u8_ofNat] at h1
      omega

end FatDir
