import FatDir.IterSpec

/-!
# Creating an entry

`create_file_entry` asks `find_free_entries` for a run of `N + 1` free slots, where `N` is the number of LFN
fragments the name needs (one per 13 bytes of it), builds the short name with `gen_short_name`, then writes the
fragments `N | LAST, N - 1, ..., 1` and the short slot. Writes go one slot at a time, so a write that fails leaves
the slots written before it in place.

* `find_free_entries` returns the start of `n` free slots, or of the free run that reaches the first slot marked
  as the end, with no end slot before (`findFreeEntries_spec`); it is the first slot from which the group fits, and
  the call fails, reading past the end, only when there is neither an end slot nor room (`findFreeEntries_first_fit`).
* A write of the group touches only its own slots, and a slot it adds to a chain past the group is zero
  (`Frame`, `writeLfnLoop_frame`).
-/

namespace FatDir

/-! ## Finding room -/

/-- The loop of `find_free_entries` from slot `i`, with `first_free` and `num_free`. -/
def findFreeLoop (numEntries : Nat) (i firstFree numFree : Nat) : List Slot → Except Fault Nat
  | [] => .error eofError
  | s :: rest =>
    if s.decode.isFree then
      let firstFree := if numFree = 0 then i else firstFree
      if numFree + 1 = numEntries then .ok firstFree
      else findFreeLoop numEntries (i + 1) firstFree (numFree + 1) rest
    else if s.decode.isEnd then .ok (if numFree = 0 then i else firstFree)
    else findFreeLoop numEntries (i + 1) firstFree 0 rest

/-- `find_free_entries`: the slot where a group of `numEntries` slots goes (the stream is returned there). -/
def findFreeEntries (st : DirStream) (numEntries : Nat) : Except Fault Nat :=
  findFreeLoop numEntries 0 0 0 st.slots

/-! ## The short name -/

/-- `str::rfind` for an ASCII byte: the position of its last occurrence. -/
def rfindByte (b : UInt8) : List UInt8 → Option Nat
  | [] => none
  | x :: xs =>
    match rfindByte b xs with
    | some j => some (j + 1)
    | none => if x = b then some 0 else none

/-- `str::is_char_boundary`. -/
def isCharBoundary (bytes : List UInt8) (k : Nat) : Bool :=
  k == 0 || k == bytes.length || (match bytes[k]? with | some b => !isCont b | none => false)

/-- The panic of slicing a `str` at a byte that is not a character boundary. -/
def strSliceError (k : Nat) : Fault := .panic ("byte index " ++ toString k ++ " is not a char boundary")

/-- The panic of slicing past the end of a slice. -/
def sliceEndError (e len : Nat) : Fault :=
  .panic ("range end index " ++ toString e ++ " out of range for slice of length " ++ toString len)

/-- The eleven bytes of a short name: the name part in the first eight, the extension in the last three, spaces
elsewhere (`[0x20u8; 11]` with the two `copy_from_slice`s). -/
def padShortName (base ext : List UInt8) : List UInt8 :=
  base.take 8 ++ List.replicate (8 - base.length) 0x20 ++ ext.take 3 ++ List.replicate (3 - ext.length) 0x20

theorem length_padShortName (base ext : List UInt8) : (padShortName base ext).length = 11 := by
  simp only [padShortName, List.length_append, List.length_take, List.length_replicate]
  omega

/-- `gen_short_name`: the upper-cased name, its extension cut at the last dot. The extension slice starts at the
dot itself, as the source has it. The upper-casing is `toUppercase`, Unicode's for the characters `UpperKnown` names;
for other cased characters (`ɐ`, whose uppercase takes three bytes) the bytes, and the char-boundary panics they lead
to, can differ from the source's. -/
def genShortName (name : String) : Except Fault (Mathlib.Vector UInt8 11) :=
  let nameUpper := utf8 (toUppercase name)
  let split : Except Fault (List UInt8 × List UInt8) :=
    match rfindByte 0x2E nameUpper with
    | some index =>
      let shortExtLen := min (nameUpper.length - index - 1) 3
      if !isCharBoundary nameUpper index then .error (strSliceError index)
      else if !isCharBoundary nameUpper (index + shortExtLen) then .error (strSliceError (index + shortExtLen))
      else .ok (nameUpper.take index, (nameUpper.drop index).take shortExtLen)
    | none => .ok (nameUpper, [])
  split.bind fun (base, ext) =>
    let shortNameLen := min base.length 8
    if isCharBoundary base shortNameLen then .ok ⟨padShortName (base.take shortNameLen) ext, length_padShortName ..⟩
    else .error (strSliceError shortNameLen)

/-! ## The LFN fragments -/

/-- `lfn_part`: the name units from `lfn_pos`, then a 0 when fewer than 13 are left, then `0xFFFF`. -/
def lfnPart (units : List UInt16) (lfnPos partLen : Nat) : List UInt16 :=
  (units.drop lfnPos).take partLen ++
    if partLen < lfnPartLen then 0 :: List.replicate (lfnPartLen - partLen - 1) 0xFFFF else []

theorem length_lfnPart {units : List UInt16} {lfnPos partLen : Nat} (h : lfnPos + partLen ≤ units.length)
    (hp : partLen ≤ lfnPartLen) : (lfnPart units lfnPos partLen).length = lfnPartLen := by
  simp only [lfnPart, lfnPartLen, List.length_append, List.length_take, List.length_drop] at hp ⊢
  split <;> simp only [List.length_cons, List.length_replicate, List.length_nil] <;> omega

/-- The fragment written `i`-th for a name of `nameLen` bytes and UTF-16 units `units`: index `N - i`, the LAST flag
on the first, the units from `13 * (N - i - 1)`; or the panic of its slice of `units`. -/
def lfnEntry (units : List UInt16) (nameLen numLfnEntries : Nat) (chk : UInt8) (i : Nat) :
    Except Fault DirLfnEntryData :=
  let lfnIndex := numLfnEntries - i
  let order := if i = 0 then UInt8.ofNat lfnIndex ||| lfnEntryLastFlag else UInt8.ofNat lfnIndex
  let lfnPos := (lfnIndex - 1) * lfnPartLen
  let partLen := min (nameLen - lfnPos) lfnPartLen
  if h : lfnPos + partLen ≤ units.length then
    let part := lfnPart units lfnPos partLen
    have hl : part.length = lfnPartLen := length_lfnPart h (Nat.min_le_right _ _)
    .ok { order, attrs := .lfn, checksum := chk, entryType := 0, reserved0 := 0,
          name0 := ⟨part.take 5, by simp [hl, lfnPartLen]⟩,
          name1 := ⟨(part.drop 5).take 6, by simp [hl, lfnPartLen]⟩,
          name2 := ⟨(part.drop 11).take 2, by simp [hl, lfnPartLen]⟩ }
  else .error (sliceEndError (lfnPos + partLen) units.length)

/-- The loop `for i in 0..num_lfn_entries` of `create_file_entry`, from `i` with `k` rounds left: build fragment `i`
and write it at slot `start + i`. -/
def writeLfnLoop (units : List UInt16) (nameLen numLfnEntries : Nat) (chk : UInt8) (start : Nat) :
    Nat → Nat → DirStream → Except Fault Unit × DirStream
  | 0, _, st => (.ok (), st)
  | k + 1, i, st =>
    match lfnEntry units nameLen numLfnEntries chk i with
    | .error f => (.error f, st)
    | .ok e =>
      match st.writeSlot (start + i) (DirEntryData.lfn e).toSlot with
      | .error f => (.error f, st)
      | .ok st' => writeLfnLoop units nameLen numLfnEntries chk start k (i + 1) st'

/-- The error of a name over 255 bytes. -/
def nameTooLongError : Fault := .io ⟨.invalidInput, "filename too long"⟩

/-- The number of LFN fragments for a name of `nameLen` bytes. -/
def numLfnEntries (nameLen : Nat) : Nat := (nameLen + lfnPartLen - 1) / lfnPartLen

/-- `create_file_entry`: the new entry, whose long name is left empty, and the stream after the writes. -/
def createFileEntry (st : DirStream) (name : String) : Except Fault DirEntry × DirStream :=
  let nameLen := (utf8 name).length
  if nameLen > 255 then (.error nameTooLongError, st)
  else
    let n := numLfnEntries nameLen
    match findFreeEntries st (n + 1) with
    | .error f => (.error f, st)
    | .ok start =>
      match genShortName name with
      | .error f => (.error f, st)
      | .ok shortName =>
        match writeLfnLoop (encodeUtf16 name) nameLen n (lfnChecksum shortName) start n 0 st with
        | (.error f, st') => (.error f, st')
        | (.ok (), st') =>
          let rawEntry : DirFileEntryData := { (default : DirFileEntryData) with name := shortName }
          match st'.writeSlot (start + n) (DirEntryData.file rawEntry).toSlot with
          | .error f => (.error f, st')
          | .ok st'' => (.ok ⟨rawEntry, [], (dirEntrySize * start, dirEntrySize * (start + n + 1))⟩, st'')

/-! ## Where `find_free_entries` puts a group -/

/-- Slot `j` exists and is free (`DirEntryData::is_free`). -/
def IsFreeAt (slots : List Slot) (j : Nat) : Prop := ∃ s, slots[j]? = some s ∧ s.decode.isFree

/-- Slot `j` exists and marks the end (`DirEntryData::is_end`). -/
def IsEndAt (slots : List Slot) (j : Nat) : Prop := ∃ s, slots[j]? = some s ∧ s.decode.isEnd

/-- Room for a group of `n` slots at `start`: no end slot before it, and either `n` free slots from it on, or free
slots from it up to an end slot less than `n` slots on. -/
def FreeRoom (slots : List Slot) (n start : Nat) : Prop :=
  (∀ j < start, ¬IsEndAt slots j) ∧
    ((∀ j, start ≤ j → j < start + n → IsFreeAt slots j) ∨
      ∃ e, start ≤ e ∧ e < start + n ∧ (∀ j, start ≤ j → j < e → IsFreeAt slots j) ∧ IsEndAt slots e)

/-- Room for a group of `n` slots at `k`, slot by slot: every slot of `[k, k + n)` is free or lies at or after an
end slot. -/
def FitsAt (slots : List Slot) (n k : Nat) : Prop :=
  ∀ j, k ≤ j → j < k + n → IsFreeAt slots j ∨ ∃ t ≤ j, IsEndAt slots t

theorem DirEntryData.isEnd_of_isFree {e : DirEntryData} (h : e.isFree = true) : e.isEnd = false := by
  cases e <;>
    simp_all [DirEntryData.isFree, DirEntryData.isEnd, DirFileEntryData.isFree, DirFileEntryData.isEnd,
      DirLfnEntryData.isFree, DirLfnEntryData.isEnd, dirEntryFreeFlag]

theorem not_isEndAt_of_isFreeAt {slots : List Slot} {j : Nat} (h : IsFreeAt slots j) : ¬IsEndAt slots j :=
  fun ⟨s, hs, he⟩ => by
    obtain ⟨s', hs', hf⟩ := h
    cases hs.symm.trans hs'
    simp [DirEntryData.isEnd_of_isFree hf] at he

theorem FreeRoom.fitsAt {slots : List Slot} {n start : Nat} (h : FreeRoom slots n start) : FitsAt slots n start := by
  intro j hj₁ hj₂
  rcases h.2 with hall | ⟨e, -, -, hfr, he⟩
  · exact .inl (hall j hj₁ hj₂)
  · rcases Nat.lt_or_ge j e with hlt | hge
    · exact .inl (hfr j hj₁ hlt)
    · exact .inr ⟨e, hge, he⟩

/-- A slot that is neither free nor after an end slot keeps every group over it from fitting. -/
theorem not_fitsAt {slots : List Slot} {n k j : Nat} (hk : k ≤ j) (hj : j < k + n) (hf : ¬IsFreeAt slots j)
    (hend : ∀ t ≤ j, ¬IsEndAt slots t) : ¬FitsAt slots n k := fun h =>
  (h j hk hj).elim hf fun ⟨t, ht, he⟩ => hend t ht he

/-- Where the loop stops at slot `i` with a run of `nf` free slots before it, no group fits before the run: a
group that ends by `i` meets a slot that is not free, and one that reaches past `i` meets the slot before the run. -/
theorem not_fitsAt_before_run {slots : List Slot} {n i nf : Nat} (hend : ∀ j < i, ¬IsEndAt slots j)
    (hleft : 0 < i - nf → ¬IsFreeAt slots (i - nf - 1))
    (hwin : ∀ k, k + n ≤ i → ∃ j, k ≤ j ∧ j < k + n ∧ ¬IsFreeAt slots j) :
    ∀ k < i - nf, ¬FitsAt slots n k := fun k hk => by
  by_cases hkn : k + n ≤ i
  · obtain ⟨j, h₁, h₂, hj⟩ := hwin k hkn
    exact not_fitsAt h₁ h₂ hj fun t ht => hend t (by omega)
  · exact not_fitsAt (j := i - nf - 1) (by omega) (by omega) (hleft (by omega)) fun t ht => hend t (by omega)

/-- The loop of `find_free_entries`, from slot `i` with a run of `nf` free slots before it (and the slot before the
run not free), no end slot before `i` and no `n` free slots in a row before `i`, returns a slot with room for the
group and no slot with room before it. -/
theorem findFreeLoop_spec {slots : List Slot} {n start : Nat} :
    ∀ (rest : List Slot) (i ff nf : Nat), slots.drop i = rest → nf ≤ i → nf < n → (0 < nf → ff = i - nf) →
      (∀ j, i - nf ≤ j → j < i → IsFreeAt slots j) → (∀ j < i, ¬IsEndAt slots j) →
      (0 < i - nf → ¬IsFreeAt slots (i - nf - 1)) →
      (∀ k, k + n ≤ i → ∃ j, k ≤ j ∧ j < k + n ∧ ¬IsFreeAt slots j) →
      findFreeLoop n i ff nf rest = .ok start → FreeRoom slots n start ∧ ∀ k < start, ¬FitsAt slots n k
  | [], _, _, _, _, _, _, _, _, _, _, _, h => by simp [findFreeLoop] at h
  | s :: rest, i, ff, nf, hd, hnf, hn, hff, hfree, hend, hleft, hwin, h => by
    have hs := getElem?_of_drop_eq hd
    have hstart : (if nf = 0 then i else ff) = i - nf := by
      split
      · omega
      · exact hff (by omega)
    have hend' : ¬IsEndAt slots i → ∀ j < i + 1, ¬IsEndAt slots j := fun hi j hj =>
      if hji : j = i then hji ▸ hi else hend j (by omega)
    simp only [findFreeLoop] at h
    split at h
    next hsf =>
      have hfree' : ∀ j, i - nf ≤ j → j < i + 1 → IsFreeAt slots j := fun j hj hj' =>
        if hji : j = i then hji ▸ ⟨s, hs, hsf⟩ else hfree j hj (by omega)
      split at h
      · cases h
        rw [hstart]
        exact ⟨⟨fun j hj => hend j (by omega), .inl fun j hj hj' => hfree' j hj (by omega)⟩,
          not_fitsAt_before_run hend hleft hwin⟩
      · have hi : i + 1 - (nf + 1) = i - nf := by omega
        refine findFreeLoop_spec rest (i + 1) _ (nf + 1) (drop_succ_of_drop_eq hd) (by omega) (by omega)
          (fun _ => by rw [hstart]; omega) (fun j hj hj' => hfree' j (by omega) hj')
          (hend' (not_isEndAt_of_isFreeAt ⟨s, hs, hsf⟩)) (by rw [hi]; exact hleft) (fun k hk => ?_) h
        by_cases hki : k + n ≤ i
        · exact hwin k hki
        · exact ⟨i - nf - 1, by omega, by omega, hleft (by omega)⟩
    next hsf =>
      have hnot : ¬IsFreeAt slots i := fun ⟨s', hs', hf⟩ => by
        cases hs.symm.trans hs'
        exact hsf hf
      split at h
      next he =>
        cases h
        rw [hstart]
        exact ⟨⟨fun j hj => hend j (by omega), .inr ⟨i, by omega, by omega, hfree, ⟨s, hs, he⟩⟩⟩,
          not_fitsAt_before_run hend hleft hwin⟩
      next he =>
        refine findFreeLoop_spec rest (i + 1) ff 0 (drop_succ_of_drop_eq hd) (by omega) (by omega)
          (fun h => absurd h (Nat.lt_irrefl 0)) (fun j hj hj' => by omega)
          (hend' fun ⟨s', hs', he'⟩ => by cases hs'.symm.trans hs; exact he he') (fun _ => hnot)
          (fun k hk => ?_) h
        by_cases hki : k + n ≤ i
        · exact hwin k hki
        · exact ⟨i, by omega, by omega, hnot⟩

/-- `find_free_entries` puts a group where there is room for it. -/
theorem findFreeEntries_spec {st : DirStream} {n start : Nat} (hn : 0 < n) (h : findFreeEntries st n = .ok start) :
    FreeRoom st.slots n start :=
  (findFreeLoop_spec _ 0 0 0 rfl le_rfl hn (fun h => absurd h (Nat.lt_irrefl 0)) (fun j hj hj' => by omega)
    (fun j hj => absurd hj (Nat.not_lt_zero j)) (fun h => absurd h (Nat.lt_irrefl 0))
    (fun k hk => absurd hk (by omega)) h).1

/-- `find_free_entries` puts a group at the first slot with room for it. -/
theorem findFreeEntries_least {st : DirStream} {n start : Nat} (hn : 0 < n) (h : findFreeEntries st n = .ok start) :
    ∀ k < start, ¬FitsAt st.slots n k :=
  (findFreeLoop_spec _ 0 0 0 rfl le_rfl hn (fun h => absurd h (Nat.lt_irrefl 0)) (fun j hj hj' => by omega)
    (fun j hj => absurd hj (Nat.not_lt_zero j)) (fun h => absurd h (Nat.lt_irrefl 0))
    (fun k hk => absurd hk (by omega)) h).2

/-- `find_free_entries` stops at the latest at a terminator. -/
theorem findFreeLoop_ok {n : Nat} : ∀ (rest : List Slot) (i ff nf : Nat), (∃ s ∈ rest, s.decode.isEnd = true) →
    ∃ start, findFreeLoop n i ff nf rest = .ok start
  | [], _, _, _, ⟨s, hs, _⟩ => absurd hs (List.not_mem_nil s)
  | s :: rest, i, ff, nf, ⟨e, he, hend⟩ => by
    have hrest : s.decode.isEnd = false → ∃ e ∈ rest, e.decode.isEnd = true := fun hs => by
      rcases List.mem_cons.mp he with rfl | he'
      · rw [hs] at hend
        cases hend
      · exact ⟨e, he', hend⟩
    simp only [findFreeLoop]
    split
    · split
      · exact ⟨_, rfl⟩
      · exact findFreeLoop_ok rest _ _ _ (hrest (DirEntryData.isEnd_of_isFree ‹_›))
    · split
      · exact ⟨_, rfl⟩
      · exact findFreeLoop_ok rest _ _ _ (hrest (Bool.eq_false_iff.mpr ‹_›))

theorem findFreeEntries_ok_of_end {st : DirStream} {t : Nat} (h : IsEndAt st.slots t) (n : Nat) :
    ∃ start, findFreeEntries st n = .ok start :=
  let ⟨s, hs, he⟩ := h
  findFreeLoop_ok _ 0 0 0 ⟨s, List.getElem?_mem hs, he⟩

theorem isFreeAt_cons_succ {s : Slot} {rest : List Slot} {q : Nat} : IsFreeAt (s :: rest) (q + 1) ↔ IsFreeAt rest q :=
  by simp [IsFreeAt]

/-- `find_free_entries` stops at the latest when `n` free slots in a row are read, or when the run under way
reaches `n`. -/
theorem findFreeLoop_ok_of_run {n : Nat} : ∀ (rest : List Slot) (i ff nf : Nat), nf < n →
    (∃ a, ∀ q, a ≤ q → q < a + n → IsFreeAt rest q) ∨ (∀ q < n - nf, IsFreeAt rest q) →
    ∃ start, findFreeLoop n i ff nf rest = .ok start
  | [], _, _, _, hn, h => by
    obtain ⟨s, hs, -⟩ := h.elim (fun ⟨a, ha⟩ => ha a le_rfl (by omega)) fun h => h 0 (by omega)
    cases hs
  | s :: rest, i, ff, nf, hn, h => by
    simp only [findFreeLoop]
    split
    · split
      · exact ⟨_, rfl⟩
      · refine findFreeLoop_ok_of_run rest _ _ _ (by omega) ?_
        rcases h with ⟨_ | a, ha⟩ | h
        · exact .inr fun q hq => isFreeAt_cons_succ.mp (ha (q + 1) (by omega) (by omega))
        · exact .inl ⟨a, fun q h₁ h₂ => isFreeAt_cons_succ.mp (ha (q + 1) (by omega) (by omega))⟩
        · exact .inr fun q hq => isFreeAt_cons_succ.mp (h (q + 1) (by omega))
    next hsf =>
      have hnot : ¬IsFreeAt (s :: rest) 0 := fun ⟨s', hs', hf⟩ => by
        rw [List.getElem?_cons_zero, Option.some.injEq] at hs'
        exact hsf (hs' ▸ hf)
      split
      · exact ⟨_, rfl⟩
      · refine findFreeLoop_ok_of_run rest _ _ _ (by omega) (.inl ?_)
        rcases h with ⟨_ | a, ha⟩ | h
        · exact absurd (ha 0 le_rfl (by omega)) hnot
        · exact ⟨a, fun q h₁ h₂ => isFreeAt_cons_succ.mp (ha (q + 1) (by omega) (by omega))⟩
        · exact absurd (h 0 (by omega)) hnot

/-- The only error of `find_free_entries` is that of reading past the end. -/
theorem findFreeLoop_error {n : Nat} {f : Fault} : ∀ (rest : List Slot) (i ff nf : Nat),
    findFreeLoop n i ff nf rest = .error f → f = eofError
  | [], _, _, _, h => by
    cases h
    rfl
  | s :: rest, i, ff, nf, h => by
    simp only [findFreeLoop] at h
    split at h
    · split at h
      · cases h
      · exact findFreeLoop_error rest _ _ _ h
    · split at h
      · cases h
      · exact findFreeLoop_error rest _ _ _ h

/-- `find_free_entries` of `n ≥ 1` slots succeeds exactly when the directory has an end slot or `n` free slots in a
row; otherwise it fails with the error of reading past the end. It returns the first slot from which the group
fits: every slot of the group is free or at or after an end slot, and no earlier slot has that room. -/
theorem findFreeEntries_first_fit {st : DirStream} {n : Nat} (hn : 0 < n) :
    ((∃ k, findFreeEntries st n = .ok k) ↔
      (∃ t, IsEndAt st.slots t) ∨ ∃ a, ∀ j, a ≤ j → j < a + n → IsFreeAt st.slots j) ∧
    (∀ f, findFreeEntries st n = .error f → f = eofError) ∧
    ∀ k, findFreeEntries st n = .ok k → FitsAt st.slots n k ∧ ∀ k' < k, ¬FitsAt st.slots n k' := by
  refine ⟨⟨fun ⟨k, hk⟩ => ?_, fun h => ?_⟩, fun f h => findFreeLoop_error _ 0 0 0 h, fun k hk => ?_⟩
  · rcases (findFreeEntries_spec hn hk).2 with hall | ⟨e, -, -, -, he⟩
    · exact .inr ⟨k, hall⟩
    · exact .inl ⟨e, he⟩
  · rcases h with ⟨t, ht⟩ | hrun
    · exact findFreeEntries_ok_of_end ht n
    · exact findFreeLoop_ok_of_run _ 0 0 0 hn (.inl hrun)
  · exact ⟨(findFreeEntries_spec hn hk).fitsAt, findFreeEntries_least hn hk⟩

theorem findFreeEntries_first_fit_zeros :
    let st : DirStream := ⟨List.replicate 2 zeroSlot, none⟩
    0 < 1 ∧ (((∃ k, findFreeEntries st 1 = .ok k) ↔
      (∃ t, IsEndAt st.slots t) ∨ ∃ a, ∀ j, a ≤ j → j < a + 1 → IsFreeAt st.slots j) ∧
      (∀ f, findFreeEntries st 1 = .error f → f = eofError) ∧
      ∀ k, findFreeEntries st 1 = .ok k → FitsAt st.slots 1 k ∧ ∀ k' < k, ¬FitsAt st.slots 1 k') :=
  ⟨by decide, findFreeEntries_first_fit (by decide)⟩

/-! ## What a group write touches -/

/-- `st'` differs from `st` only in the slots `[a, b)`, and a slot it has past the end of `st` outside them is
zero. -/
def Frame (st st' : DirStream) (a b : Nat) : Prop :=
  st.slots.length ≤ st'.slots.length ∧ st'.cluster = st.cluster ∧ ∀ j, (j < a ∨ b ≤ j) →
    st'.slots[j]? = if j < st.slots.length then st.slots[j]? else if j < st'.slots.length then some zeroSlot else none

theorem Frame.refl (st : DirStream) (a : Nat) : Frame st st a a := by
  refine ⟨le_rfl, rfl, fun j _ => ?_⟩
  by_cases hj : j < st.slots.length
  · rw [if_pos hj]
  · rw [if_neg hj, if_neg hj, List.getElem?_eq_none (by omega)]

theorem Frame.trans {st₁ st₂ st₃ : DirStream} {a b c : Nat} (h₁ : Frame st₁ st₂ a b) (h₂ : Frame st₂ st₃ b c)
    (hab : a ≤ b) (hbc : b ≤ c) : Frame st₁ st₃ a c := by
  obtain ⟨hl₁, hc₁, hf₁⟩ := h₁
  obtain ⟨hl₂, hc₂, hf₂⟩ := h₂
  refine ⟨hl₁.trans hl₂, hc₂.trans hc₁, fun j hj => ?_⟩
  rw [hf₂ j (by omega)]
  by_cases hj₂ : j < st₂.slots.length
  · rw [if_pos hj₂, hf₁ j (by omega)]
    by_cases hj₁ : j < st₁.slots.length
    · rw [if_pos hj₁, if_pos hj₁]
    · rw [if_neg hj₁, if_neg hj₁, if_pos hj₂, if_pos (by omega)]
  · rw [if_neg hj₂, if_neg (show ¬j < st₁.slots.length by omega)]

theorem writeSlot_frame {st st' : DirStream} {i : Nat} {s : Slot} (h : st.writeSlot i s = .ok st') :
    Frame st st' i (i + 1) ∧ st'.slots[i]? = some s := by
  obtain ⟨hl, -, hc⟩ := DirStream.length_le_writeSlot h
  refine ⟨⟨hl, hc, fun j hj => ?_⟩, by rw [DirStream.getElem?_writeSlot h, if_pos rfl]⟩
  rw [DirStream.getElem?_writeSlot h, if_neg (by omega)]

/-- A later write keeps a slot written before, outside its own range. -/
theorem Frame.getElem?_of_lt {st st' : DirStream} {a b j : Nat} {s : Slot} (h : Frame st st' a b) (hj : j < a ∨ b ≤ j)
    (hs : st.slots[j]? = some s) : st'.slots[j]? = some s := by
  have hl : j < st.slots.length := (List.getElem?_eq_some_iff.mp hs).1
  rw [h.2.2 j hj, if_pos hl, hs]

theorem writeLfnLoop_ok {units : List UInt16} {nameLen n : Nat} {chk : UInt8} {start : Nat} :
    ∀ (k i : Nat) (st st' : DirStream), writeLfnLoop units nameLen n chk start k i st = (.ok (), st') →
      Frame st st' (start + i) (start + i + k) ∧
        ∀ j < k, ∃ e, lfnEntry units nameLen n chk (i + j) = .ok e ∧
          st'.slots[start + i + j]? = some (DirEntryData.lfn e).toSlot
  | 0, i, st, st', h => by
    simp only [writeLfnLoop, Prod.mk.injEq, true_and] at h
    subst h
    exact ⟨Frame.refl _ _, fun j hj => absurd hj (Nat.not_lt_zero j)⟩
  | k + 1, i, st, st', h => by
    simp only [writeLfnLoop] at h
    split at h
    · cases h
    · rename_i e he
      split at h
      · cases h
      · rename_i st₁ hw
        obtain ⟨hf₁, hs₁⟩ := writeSlot_frame hw
        obtain ⟨hf₂, hs₂⟩ := writeLfnLoop_ok k (i + 1) st₁ st' h
        have hf := hf₁.trans hf₂ (by omega) (by omega)
        rw [show start + (i + 1) + k = start + i + (k + 1) by omega] at hf
        refine ⟨hf, fun j hj => ?_⟩
        rcases j with _ | j
        · exact ⟨e, he, hf₂.getElem?_of_lt (.inl (by omega)) hs₁⟩
        · obtain ⟨e', he', hs'⟩ := hs₂ j (by omega)
          rw [show start + (i + 1) + j = start + i + (j + 1) by omega] at hs'
          rw [Nat.add_right_comm] at he'
          exact ⟨e', he', hs'⟩

/-! ## The group of an ASCII name -/

/-- The fragment `lfnEntry` builds, when its slice is in range. -/
def lfnFragment (units : List UInt16) (nameLen n : Nat) (chk : UInt8) (i : Nat) : DirLfnEntryData :=
  match lfnEntry units nameLen n chk i with
  | .ok d => d
  | .error _ => default

/-- The order byte of fragment `n`, with and without the LAST flag, for every index below 32. -/
theorem order_bits : ∀ n, n < 32 → ((UInt8.ofNat n ||| lfnEntryLastFlag) &&& 0x1F).toNat = n ∧
    ((UInt8.ofNat n ||| lfnEntryLastFlag) &&& lfnEntryLastFlag != 0) = true ∧
    (UInt8.ofNat n &&& 0x1F).toNat = n ∧ (UInt8.ofNat n &&& lfnEntryLastFlag != 0) = false := by
  decide

/-- A part of 13 units is `name_0`, `name_1` and `name_2` in a row. -/
theorem take_append_take_append_take {l : List UInt16} (h : l.length = lfnPartLen) :
    l.take 5 ++ (l.drop 5).take 6 ++ (l.drop 11).take 2 = l := by
  have h2 : (l.drop 11).take 2 = (l.drop 5).drop 6 := by
    rw [List.drop_drop, List.take_of_length_le (by simp [h, lfnPartLen])]
  rw [h2, List.append_assoc, List.take_append_drop, List.take_append_drop]

section Ascii

variable {units : List UInt16} {nameLen : Nat}

/-- What a fragment `lfnEntry` returns holds: the LFN attributes, the checksum, the order of its index and the
part of the units from `13 * (N - i - 1)`. -/
theorem lfnEntry_spec {n : Nat} {chk : UInt8} {i : Nat} {d : DirLfnEntryData}
    (h : lfnEntry units nameLen n chk i = .ok d) :
    d.attrs = .lfn ∧ d.checksum = chk ∧
      d.order = (if i = 0 then UInt8.ofNat (n - i) ||| lfnEntryLastFlag else UInt8.ofNat (n - i)) ∧
      d.units = lfnPart units ((n - i - 1) * lfnPartLen) (min (nameLen - (n - i - 1) * lfnPartLen) lfnPartLen) := by
  unfold lfnEntry at h
  dsimp only at h
  split at h
  · cases h
    exact ⟨rfl, rfl, rfl, take_append_take_append_take (length_lfnPart ‹_› (Nat.min_le_right _ _))⟩
  · cases h

/-- When the units are as many as the bytes, every fragment's slice is in range: fragment `i` has index `N - i`, the
LAST flag exactly when `i = 0`, the group's checksum, and part `N - i - 1` of the units. -/
theorem lfnEntry_ok (hu : units.length = nameLen) (hlen : nameLen ≤ 255) (chk : UInt8) {i : Nat}
    (hi : i < numLfnEntries nameLen) :
    lfnEntry units nameLen (numLfnEntries nameLen) chk i = .ok (lfnFragment units nameLen (numLfnEntries nameLen) chk i) ∧
      (lfnFragment units nameLen (numLfnEntries nameLen) chk i).attrs = .lfn ∧
      (lfnFragment units nameLen (numLfnEntries nameLen) chk i).Fragment (numLfnEntries nameLen - i) (i == 0) chk ∧
      (lfnFragment units nameLen (numLfnEntries nameLen) chk i).units =
        lfnPart units ((numLfnEntries nameLen - i - 1) * lfnPartLen)
          (min (nameLen - (numLfnEntries nameLen - i - 1) * lfnPartLen) lfnPartLen) := by
  have hb : (numLfnEntries nameLen - i - 1) * lfnPartLen +
      min (nameLen - (numLfnEntries nameLen - i - 1) * lfnPartLen) lfnPartLen ≤ units.length := by
    rw [hu]
    simp only [numLfnEntries, lfnPartLen] at hi ⊢
    omega
  have h32 : numLfnEntries nameLen - i < 32 := by
    simp only [numLfnEntries, lfnPartLen]
    omega
  obtain ⟨d, hd⟩ : ∃ d, lfnEntry units nameLen (numLfnEntries nameLen) chk i = .ok d := by
    unfold lfnEntry
    dsimp only
    rw [dif_pos hb]
    exact ⟨_, rfl⟩
  have hf : lfnFragment units nameLen (numLfnEntries nameLen) chk i = d := by simp only [lfnFragment, hd]
  rw [hf]
  obtain ⟨ha, hc, ho, hun⟩ := lfnEntry_spec hd
  obtain ⟨o1, o2, o3, o4⟩ := order_bits _ h32
  refine ⟨hd, ha, ⟨?_, ?_, hc⟩, hun⟩
  · rw [ho]
    split <;> assumption
  · rw [ho]
    rcases i with _ | i
    · exact o2
    · exact o4

/-- Part `c + 1` of the units is part `c` of the units after the first 13. -/
theorem lfnPart_succ (units : List UInt16) (c : Nat) :
    lfnPart units ((c + 1) * lfnPartLen) (min (units.length - (c + 1) * lfnPartLen) lfnPartLen) =
      lfnPart (units.drop lfnPartLen) (c * lfnPartLen)
        (min ((units.drop lfnPartLen).length - c * lfnPartLen) lfnPartLen) := by
  have h₁ : (c + 1) * lfnPartLen = lfnPartLen + c * lfnPartLen := by simp only [lfnPartLen]; omega
  have h₂ : units.length - (c + 1) * lfnPartLen = (units.drop lfnPartLen).length - c * lfnPartLen := by
    rw [List.length_drop]
    simp only [lfnPartLen]
    omega
  rw [h₂, lfnPart, lfnPart, h₁, List.drop_drop]

/-- The parts of the units in index order spell the units, then one 0 and `0xFFFF` padding up to a multiple of 13,
when there are `N` parts for them. -/
theorem flatMap_lfnPart : ∀ (units : List UInt16) (N : Nat), lfnPartLen * (N - 1) < units.length →
    units.length ≤ lfnPartLen * N →
    (List.range N).flatMap (fun c => lfnPart units (c * lfnPartLen) (min (units.length - c * lfnPartLen) lfnPartLen)) =
      units ++ if units.length < lfnPartLen * N then 0 :: List.replicate (lfnPartLen * N - units.length - 1) 0xFFFF
        else []
  | units, 0, h₁, h₂ => by simp only [lfnPartLen] at h₁ h₂; omega
  | units, 1, _, h₂ => by
    rw [Nat.mul_one] at h₂
    rw [show List.range 1 = [0] from rfl, List.flatMap_singleton, lfnPart, Nat.zero_mul, List.drop_zero, Nat.sub_zero,
      Nat.min_eq_left h₂, List.take_of_length_le (Nat.le_refl _), Nat.mul_one]
  | units, N + 2, h₁, h₂ => by
    simp only [lfnPartLen] at h₁ h₂
    have hl : lfnPartLen < units.length := by simp only [lfnPartLen]; omega
    rw [List.range_succ_eq_map, List.flatMap_cons, List.flatMap_map]
    simp only [Function.comp_def, lfnPart_succ]
    rw [flatMap_lfnPart (units.drop lfnPartLen) (N + 1) (by simp only [List.length_drop, lfnPartLen]; omega)
      (by simp only [List.length_drop, lfnPartLen]; omega)]
    have hs : (units.drop lfnPartLen).length < lfnPartLen * (N + 1) ↔ units.length < lfnPartLen * (N + 2) := by
      simp only [List.length_drop, lfnPartLen]
      omega
    have hr : lfnPartLen * (N + 1) - (units.drop lfnPartLen).length = lfnPartLen * (N + 2) - units.length := by
      simp only [List.length_drop, lfnPartLen]
      omega
    rw [lfnPart, Nat.zero_mul, List.drop_zero, Nat.sub_zero, Nat.min_eq_right hl.le, if_neg (Nat.lt_irrefl _),
      List.append_nil, ← List.append_assoc, List.take_append_drop, hr]
    simp only [hs]

/-- Fed the fragments of a name whose units are as many as its bytes, in the order they are written, any builder
ends at index 1 with the group's checksum and the units followed by one 0 and `0xFFFF` padding. -/
theorem feed_lfnFragments (hu : units.length = nameLen) (hlen : nameLen ≤ 255) (hpos : 0 < nameLen) (chk : UInt8)
    (b : LongNameBuilder) :
    (b.feed ((List.range (numLfnEntries nameLen)).map (lfnFragment units nameLen (numLfnEntries nameLen) chk))).index = 1 ∧
      (b.feed ((List.range (numLfnEntries nameLen)).map
        (lfnFragment units nameLen (numLfnEntries nameLen) chk))).chksum = chk ∧
      (b.feed ((List.range (numLfnEntries nameLen)).map (lfnFragment units nameLen (numLfnEntries nameLen) chk))).buf =
        units ++ if nameLen < lfnPartLen * numLfnEntries nameLen then
          0 :: List.replicate (lfnPartLen * numLfnEntries nameLen - nameLen - 1) 0xFFFF else [] := by
  obtain ⟨k, hk⟩ : ∃ k, numLfnEntries nameLen = k + 1 :=
    ⟨numLfnEntries nameLen - 1, by simp only [numLfnEntries, lfnPartLen]; omega⟩
  have hN : numLfnEntries nameLen ≤ 20 := by simp only [numLfnEntries, lfnPartLen]; omega
  have hlist : (List.range (numLfnEntries nameLen)).map (lfnFragment units nameLen (numLfnEntries nameLen) chk) =
      lfnFragment units nameLen (numLfnEntries nameLen) chk 0 ::
        LongNameBuilder.descending
          (fun j => lfnFragment units nameLen (numLfnEntries nameLen) chk (numLfnEntries nameLen - j))
          (numLfnEntries nameLen - 1) := by
    rw [hk, List.range_succ_eq_map, List.map_cons, List.map_map, Nat.add_sub_cancel]
    exact congrArg _ (LongNameBuilder.map_range_eq_descending _ k)
  have htop := (lfnEntry_ok hu hlen chk (i := 0) (by omega)).2.2.1
  rw [Nat.sub_zero] at htop
  have hg : ∀ i, 0 < i → i < numLfnEntries nameLen →
      (lfnFragment units nameLen (numLfnEntries nameLen) chk (numLfnEntries nameLen - i)).Fragment i false chk := by
    intro i hi hiN
    have h := (lfnEntry_ok hu hlen chk (i := numLfnEntries nameLen - i) (by omega)).2.2.1
    rwa [show numLfnEntries nameLen - (numLfnEntries nameLen - i) = i by omega,
      show (numLfnEntries nameLen - i == 0) = false by simp only [beq_eq_false_iff_ne]; omega] at h
  obtain ⟨h1, h2, h3⟩ := LongNameBuilder.feed_group htop (by omega) hg b
  rw [hlist]
  refine ⟨h1, h2, ?_⟩
  have hpart : ∀ c ∈ List.range (numLfnEntries nameLen),
      (lfnFragment units nameLen (numLfnEntries nameLen) chk (numLfnEntries nameLen - (c + 1))).units =
        lfnPart units (c * lfnPartLen) (min (units.length - c * lfnPartLen) lfnPartLen) := by
    intro c hc
    rw [List.mem_range] at hc
    rw [(lfnEntry_ok hu hlen chk (i := numLfnEntries nameLen - (c + 1)) (by omega)).2.2.2,
      show numLfnEntries nameLen - (numLfnEntries nameLen - (c + 1)) - 1 = c by omega, hu]
  have hrange : ((List.range (numLfnEntries nameLen)).flatMap fun c =>
        (lfnFragment units nameLen (numLfnEntries nameLen) chk (numLfnEntries nameLen - (c + 1))).units) =
      ((List.range (numLfnEntries nameLen - 1)).flatMap fun c =>
        (lfnFragment units nameLen (numLfnEntries nameLen) chk (numLfnEntries nameLen - (c + 1))).units) ++
      (lfnFragment units nameLen (numLfnEntries nameLen) chk 0).units := by
    rw [hk, List.range_succ, List.flatMap_append, List.flatMap_singleton, Nat.add_sub_cancel, Nat.sub_self]
  have hsplit := flatMap_lfnPart units (numLfnEntries nameLen)
    (by rw [hu]; simp only [numLfnEntries, lfnPartLen]; omega) (by rw [hu]; simp only [numLfnEntries, lfnPartLen]; omega)
  rw [h3, LongNameBuilder.reverse_descending, List.flatMap_map, ← hrange, List.flatMap_congr hpart, hsplit, hu]

end Ascii

/-! ## What a successful call wrote -/

/-- A call that returns `Ok` found room at `start` with `find_free_entries`, wrote nothing outside the slots of its
group, and returns the range of the group. -/
theorem createFileEntry_ok_inv {st st' : DirStream} {name : String} {e : DirEntry}
    (h : createFileEntry st name = (.ok e, st')) :
    ∃ start, findFreeEntries st (numLfnEntries (utf8 name).length + 1) = .ok start ∧
      Frame st st' start (start + numLfnEntries (utf8 name).length + 1) ∧
      e.offsetRange = (dirEntrySize * start, dirEntrySize * (start + numLfnEntries (utf8 name).length + 1)) := by
  have hlen : ¬(utf8 name).length > 255 := fun hl => by simp [createFileEntry, hl] at h
  cases hfree : findFreeEntries st (numLfnEntries (utf8 name).length + 1) with
  | error f => simp [createFileEntry, hlen, hfree] at h
  | ok start =>
    cases hsn : genShortName name with
    | error f => simp [createFileEntry, hlen, hfree, hsn] at h
    | ok sn =>
      cases hloop : writeLfnLoop (encodeUtf16 name) (utf8 name).length (numLfnEntries (utf8 name).length)
          (lfnChecksum sn) start (numLfnEntries (utf8 name).length) 0 st with
      | mk r st₁ =>
        cases r with
        | error f => simp [createFileEntry, hlen, hfree, hsn, hloop] at h
        | ok u =>
          cases hw : st₁.writeSlot (start + numLfnEntries (utf8 name).length)
              (DirEntryData.file { (default : DirFileEntryData) with name := sn }).toSlot with
          | error f => simp [createFileEntry, hlen, hfree, hsn, hloop, hw] at h
          | ok st₂ =>
            simp only [createFileEntry, hlen, if_false, hfree, hsn, hloop, hw, Prod.mk.injEq] at h
            obtain ⟨he, rfl⟩ := h
            cases he
            obtain ⟨hf₁, -⟩ := writeLfnLoop_ok _ _ _ _ hloop
            obtain ⟨hf₂, -⟩ := writeSlot_frame hw
            exact ⟨start, rfl, hf₁.trans hf₂ (by omega) (by omega), rfl⟩

/-! ## The terminator after a new group -/

/-- When every slot after slot `t` is zero, a group that covers slot `t` leaves a zero slot right after itself,
wherever the stream has one: an existing zero slot, or one of the zero-filled cluster a chain grew by. -/
theorem createFileEntry_zero_after {st : DirStream} {name : String} {e : DirEntry} {t : Nat}
    (hzero : ∀ j, t < j → j < st.slots.length → st.slots[j]? = some zeroSlot)
    (h : (createFileEntry st name).1 = .ok e)
    (hcover : e.offsetRange.1 ≤ dirEntrySize * t ∧ dirEntrySize * t < e.offsetRange.2) :
    ∀ s, (createFileEntry st name).2.slots[e.offsetRange.2 / dirEntrySize]? = some s → s = zeroSlot := by
  obtain ⟨start, -, ⟨-, -, hf⟩, he⟩ := createFileEntry_ok_inv (Prod.ext h rfl)
  rw [he] at hcover ⊢
  simp only [dirEntrySize] at hcover ⊢
  intro s hs
  rw [Nat.mul_div_cancel_left _ (by decide), hf _ (.inr le_rfl)] at hs
  split at hs
  · rw [hzero _ (by omega) ‹_›] at hs
    exact (Option.some.inj hs).symm
  · split at hs
    · exact (Option.some.inj hs).symm
    · cases hs

/-- Three zero slots, and the name `a`: one fragment and the short slot over slots 0 and 1. -/
theorem createFileEntry_zero_after_a :
    (∀ j, 0 < j → j < 3 → [zeroSlot, zeroSlot, zeroSlot][j]? = some zeroSlot) ∧
      (createFileEntry ⟨[zeroSlot, zeroSlot, zeroSlot], none⟩ "a").1 =
        .ok ⟨{ (default : DirFileEntryData) with name := ⟨0x41 :: List.replicate 10 0x20, rfl⟩ }, [], (0, 64)⟩ ∧
      (0 ≤ dirEntrySize * 0 ∧ dirEntrySize * 0 < 64) ∧
      ∀ s, (createFileEntry ⟨[zeroSlot, zeroSlot, zeroSlot], none⟩ "a").2.slots[64 / dirEntrySize]? = some s →
        s = zeroSlot :=
  have hzero : ∀ j, 0 < j → j < 3 → [zeroSlot, zeroSlot, zeroSlot][j]? = some zeroSlot := by
    intro j h₁ h₂
    rcases j with _ | _ | _ | j <;> first | rfl | omega
  have h : (createFileEntry ⟨[zeroSlot, zeroSlot, zeroSlot], none⟩ "a").1 =
      .ok ⟨{ (default : DirFileEntryData) with name := ⟨0x41 :: List.replicate 10 0x20, rfl⟩ }, [], (0, 64)⟩ := by
    decide
  have hcover : 0 ≤ dirEntrySize * 0 ∧ dirEntrySize * 0 < 64 := by decide
  ⟨hzero, h, hcover, createFileEntry_zero_after hzero h hcover⟩

/-- With a stale entry after the terminator, a group written over the terminator leaves that entry right after
itself, and the iterator now yields it. -/
theorem createFileEntry_stale_after :
    let st : DirStream := ⟨[zeroSlot, zeroSlot,
      (DirEntryData.file { (default : DirFileEntryData) with name := ⟨0x42 :: List.replicate 10 0x20, rfl⟩ }).toSlot,
      zeroSlot], none⟩
    (createFileEntry st "a").1.map (·.offsetRange) = .ok (0, 64) ∧
      (DirIter.items (createFileEntry st "a").2).map (Except.map (·.offsetRange)) = [.ok (0, 64), .ok (64, 96)] := by
  decide

/-! ## Names outside ASCII -/

/-- For a name with a character outside ASCII, the first fragment's slice of the UTF-16 units ends at the name's
length in bytes, past the end of the units: `create_file_entry` panics before it writes anything. The name's
characters are ones whose uppercase the model knows (`UpperKnown`), so that `gen_short_name` is the source's: when it
does not panic itself, the slice does. -/
theorem createFileEntry_panics {st : DirStream} {name : String} {start : Nat} {shortName : Mathlib.Vector UInt8 11}
    (_hup : ∀ c ∈ name.data, UpperKnown c) (hna : ¬IsAscii name) (hlen : (utf8 name).length ≤ 255)
    (hfree : findFreeEntries st (numLfnEntries (utf8 name).length + 1) = .ok start)
    (hsn : genShortName name = .ok shortName) :
    createFileEntry st name = (.error (sliceEndError (utf8 name).length (encodeUtf16 name).length), st) := by
  have hlt := length_encodeUtf16_lt hna
  have hn : 0 < numLfnEntries (utf8 name).length := by simp only [numLfnEntries, lfnPartLen]; omega
  have hpos : (numLfnEntries (utf8 name).length - 1) * lfnPartLen +
      min ((utf8 name).length - (numLfnEntries (utf8 name).length - 1) * lfnPartLen) lfnPartLen =
      (utf8 name).length := by
    simp only [numLfnEntries, lfnPartLen]
    omega
  have hentry : lfnEntry (encodeUtf16 name) (utf8 name).length (numLfnEntries (utf8 name).length)
      (lfnChecksum shortName) 0 = .error (sliceEndError (utf8 name).length (encodeUtf16 name).length) := by
    unfold lfnEntry
    simp only [Nat.sub_zero]
    rw [dif_neg (by omega), hpos]
  obtain ⟨k, hk⟩ : ∃ k, numLfnEntries (utf8 name).length = k + 1 := ⟨_, (Nat.succ_pred_eq_of_pos hn).symm⟩
  unfold createFileEntry
  rw [if_neg (by omega)]
  simp only [hfree, hsn]
  rw [hk, writeLfnLoop, ← hk, hentry]

/-- The name `é`: two bytes, one UTF-16 unit; its short name is `É` (`C3 89`) and spaces. -/
theorem createFileEntry_panics_e_acute :
    (∀ c ∈ "é".data, UpperKnown c) ∧ ¬IsAscii "é" ∧ (utf8 "é").length ≤ 255 ∧
      findFreeEntries ⟨[zeroSlot, zeroSlot], none⟩ (numLfnEntries (utf8 "é").length + 1) = .ok 0 ∧
      genShortName "é" = .ok ⟨[0xC3, 0x89, 0x20, 0x20, 0x20, 0x20, 0x20, 0x20, 0x20, 0x20, 0x20], rfl⟩ ∧
      createFileEntry ⟨[zeroSlot, zeroSlot], none⟩ "é" =
        (.error (sliceEndError (utf8 "é").length (encodeUtf16 "é").length), ⟨[zeroSlot, zeroSlot], none⟩) :=
  have hup : ∀ c ∈ "é".data, UpperKnown c := by decide
  have hna : ¬IsAscii "é" := by decide
  have hlen : (utf8 "é").length ≤ 255 := by decide
  have hfree : findFreeEntries ⟨[zeroSlot, zeroSlot], none⟩ (numLfnEntries (utf8 "é").length + 1) = .ok 0 := by
    decide
  have hsn : genShortName "é" = .ok ⟨[0xC3, 0x89, 0x20, 0x20, 0x20, 0x20, 0x20, 0x20, 0x20, 0x20, 0x20], rfl⟩ := by
    decide
  ⟨hup, hna, hlen, hfree, hsn, createFileEntry_panics hup hna hlen hfree hsn⟩

/-! ## Where the iterator and the allocator see the end -/

/-- A slot that is an LFN fragment by its attribute byte and has order 0 ends the directory for
`find_free_entries` (`is_end`), while the iterator passes over it and yields the short entry after it. -/
theorem iter_passes_lfn_end :
    let st : DirStream := ⟨[(DirEntryData.lfn (DirLfnEntryData.mk 0 ⟨List.replicate 5 0, rfl⟩ FileAttributes.lfn 0 0
        ⟨List.replicate 6 0, rfl⟩ 0 ⟨List.replicate 2 0, rfl⟩)).toSlot,
      (DirEntryData.file { (default : DirFileEntryData) with name := ⟨0x41 :: List.replicate 10 0x20, rfl⟩ }).toSlot,
      zeroSlot], none⟩
    (st.slots[0]?.map fun s => (s.get 0, s.decode.isEnd)) = some (0, true) ∧ findFreeEntries st 1 = .ok 0 ∧
      (DirIter.items st).map (Except.map (·.offsetRange)) = [.ok (0, 64)] := by
  decide

end FatDir
