import FatDir.LongName
import FatDir.Stream
import FatDir.Text

/-!
# Iterating a directory

`read_dir_entry` reads slots from the stream position until it meets a live short entry, which it returns with the
long name the fragments before it spelled and the byte range from the slot after the last free or volume-ID slot
to the end of the short slot; a short slot whose first byte is 0 ends the directory. `DirIter::next` wraps it and
stops for good after an error, and `run` drives `next` the way a `for` loop does.

The one-pass `scan` reads the stream once and yields what every call of `read_dir_entry` yields, one after the
other: it is the iteration with the calls fused.

* One call of `read_dir_entry` returns what `scan` yields first, and `scan` goes on from where the call stopped
  (`readAgrees`).
* Run to its end, the iterator yields exactly what `scan` does and stops in the same state (`run_eq_scan`).
-/

namespace FatDir

/-- `DirEntry`: a short entry with its long name in UTF-16 and the byte range of its slots in the directory. The
absolute position `entry_pos` and the file-system handle are left out: nothing modelled reads them. -/
structure DirEntry where
  data : DirFileEntryData
  lfn : List UInt16
  offsetRange : Nat × Nat
  deriving DecidableEq

namespace DirEntry

/-- `short_file_name`: the eight name bytes and the three extension bytes, each decoded and trimmed at the end,
joined by a dot when the extension is not empty. -/
def shortFileName (e : DirEntry) : String :=
  let nameTrimmed := trimRight (decodeUtf8 (e.data.name.toList.take 8))
  let extTrimmed := trimRight (decodeUtf8 (e.data.name.toList.drop 8))
  if extTrimmed.isEmpty then ⟨nameTrimmed⟩ else ⟨nameTrimmed ++ '.' :: extTrimmed⟩

/-- `file_name`: the long name if there is one, else the short name. -/
def fileName (e : DirEntry) : String := if e.lfn.length > 0 then fromUtf16Lossy e.lfn else e.shortFileName

/-- `is_dir`. -/
def isDir (e : DirEntry) : Bool := e.data.isDir

/-- `first_cluster`. -/
def firstCluster (e : DirEntry) : Option Nat := e.data.firstCluster

end DirEntry

/-! ## One call of `read_dir_entry` -/

/-- The loop of `read_dir_entry` over the slots `rest` that follow the stream position `offset` (in bytes), with
its LFN builder and `begin_offset`. It returns the outcome and the stream position after it. -/
def readDirEntryFrom (lfnBuf : LongNameBuilder) (beginOffset offset : Nat) :
    List Slot → Except Fault (Option DirEntry) × Nat
  | [] => (.error eofError, offset)
  | s :: rest =>
    let offset := offset + dirEntrySize
    match s.decode with
    | .file data =>
      if data.isEnd then (.ok none, offset)
      else if data.isFree || data.attrs.contains .volumeId then readDirEntryFrom lfnBuf.clear offset offset rest
      else (.ok (some ⟨data, (lfnBuf.validateChksum data.name).toVec, (beginOffset, offset)⟩), offset)
    | .lfn data =>
      if data.isFree then readDirEntryFrom lfnBuf.clear offset offset rest
      else readDirEntryFrom (lfnBuf.process data) beginOffset offset rest

/-- `read_dir_entry` from the byte position `pos` of the stream. -/
def readDirEntry (st : DirStream) (pos : Nat) : Except Fault (Option DirEntry) × Nat :=
  readDirEntryFrom .new pos pos (st.slots.drop (pos / dirEntrySize))

/-- `DirIter`: the position of its stream and whether it has yielded an error. -/
structure DirIter where
  pos : Nat
  err : Bool
  deriving DecidableEq, Repr

/-- `Dir::iter`: a fresh stream at the start of the directory. -/
def DirIter.start : DirIter := ⟨0, false⟩

/-- `Iterator::next` for `DirIter`. -/
def DirIter.next (st : DirStream) (it : DirIter) : Option (Except Fault DirEntry) × DirIter :=
  if it.err then (none, it)
  else
    match readDirEntry st it.pos with
    | (.ok (some e), pos) => (some (.ok e), ⟨pos, false⟩)
    | (.ok none, pos) => (none, ⟨pos, false⟩)
    | (.error f, pos) => (some (.error f), ⟨pos, true⟩)

/-- Call `next` until it returns `None`, as a `for` loop does, with at most `fuel` calls: the items and the
iterator's last state. -/
def DirIter.collect (st : DirStream) : Nat → DirIter → List (Except Fault DirEntry) × DirIter
  | 0, it => ([], it)
  | fuel + 1, it =>
    match it.next st with
    | (none, it') => ([], it')
    | (some r, it') => ((r :: (collect st fuel it').1), (collect st fuel it').2)

/-- The whole iteration of a directory. Each entry takes at least one slot, so `length + 2` calls reach the `None`
(`run_eq_scan`). -/
def DirIter.run (st : DirStream) : List (Except Fault DirEntry) × DirIter :=
  DirIter.collect st (st.slots.length + 2) .start

/-- The items of the iteration. -/
def DirIter.items (st : DirStream) : List (Except Fault DirEntry) := (DirIter.run st).1

/-! ## The fused iteration -/

/-- The slots `rest` after the byte position `offset`, read in one pass: the builder and `begin_offset` carry over
a free or volume-ID slot and an LFN fragment, and start afresh after each entry. -/
def scan (lfnBuf : LongNameBuilder) (beginOffset offset : Nat) :
    List Slot → List (Except Fault DirEntry) × DirIter
  | [] => ([.error eofError], ⟨offset, true⟩)
  | s :: rest =>
    let offset := offset + dirEntrySize
    match s.decode with
    | .file data =>
      if data.isEnd then ([], ⟨offset, false⟩)
      else if data.isFree || data.attrs.contains .volumeId then scan lfnBuf.clear offset offset rest
      else
        (.ok ⟨data, (lfnBuf.validateChksum data.name).toVec, (beginOffset, offset)⟩ ::
          (scan .new offset offset rest).1, (scan .new offset offset rest).2)
    | .lfn data =>
      if data.isFree then scan lfnBuf.clear offset offset rest
      else scan (lfnBuf.process data) beginOffset offset rest

/-- One call of `read_dir_entry` and the scan of the same slots agree: both end at a terminator, both fail with the
same fault, or the call returns the first entry of the scan after `n + 1` slots and the scan goes on from there. -/
def ReadAgrees (b : LongNameBuilder) (beginOffset offset : Nat) (rest : List Slot) : Prop :=
  (∃ p, readDirEntryFrom b beginOffset offset rest = (.ok none, p) ∧ scan b beginOffset offset rest = ([], ⟨p, false⟩)) ∨
  (∃ f p, readDirEntryFrom b beginOffset offset rest = (.error f, p) ∧
    scan b beginOffset offset rest = ([.error f], ⟨p, true⟩)) ∨
  (∃ e n, n + 1 ≤ rest.length ∧
    readDirEntryFrom b beginOffset offset rest = (.ok (some e), offset + dirEntrySize * (n + 1)) ∧
    scan b beginOffset offset rest =
      (.ok e :: (scan .new (offset + dirEntrySize * (n + 1)) (offset + dirEntrySize * (n + 1)) (rest.drop (n + 1))).1,
        (scan .new (offset + dirEntrySize * (n + 1)) (offset + dirEntrySize * (n + 1)) (rest.drop (n + 1))).2))

/-- A slot both loops pass over the same way keeps them in agreement. -/
theorem readAgrees_cons {b : LongNameBuilder} {beg off : Nat} {s : Slot} {rest : List Slot}
    (b' : LongNameBuilder) (beg' : Nat) (hr : readDirEntryFrom b beg off (s :: rest) = readDirEntryFrom b' beg' (off + dirEntrySize) rest)
    (hs : scan b beg off (s :: rest) = scan b' beg' (off + dirEntrySize) rest)
    (h : ReadAgrees b' beg' (off + dirEntrySize) rest) : ReadAgrees b beg off (s :: rest) := by
  unfold ReadAgrees
  rw [hr, hs]
  rcases h with h | h | ⟨e, n, hn, h1, h2⟩
  · exact .inl h
  · exact .inr (.inl h)
  · have hp : off + dirEntrySize + dirEntrySize * (n + 1) = off + dirEntrySize * (n + 1 + 1) := by
      simp only [dirEntrySize]
      omega
    refine .inr (.inr ⟨e, n + 1, by simp only [List.length_cons]; omega, ?_, ?_⟩)
    · rw [h1, hp]
    · rw [h2, hp, List.drop_succ_cons]

theorem readAgrees (b : LongNameBuilder) (beg off : Nat) (rest : List Slot) : ReadAgrees b beg off rest := by
  induction rest generalizing b beg off with
  | nil => exact .inr (.inl ⟨_, _, rfl, rfl⟩)
  | cons s rest ih =>
    cases hd : s.decode with
    | file data =>
      by_cases he : data.isEnd
      · exact .inl ⟨off + dirEntrySize, by simp [readDirEntryFrom, hd, he], by simp [scan, hd, he]⟩
      by_cases hf : (data.isFree || data.attrs.contains .volumeId) = true
      · exact readAgrees_cons b.clear (off + dirEntrySize) (by simp [readDirEntryFrom, hd, he, hf])
          (by simp [scan, hd, he, hf]) (ih _ _ _)
      · refine .inr (.inr ⟨⟨data, (b.validateChksum data.name).toVec, (beg, off + dirEntrySize)⟩, 0, by simp, ?_, ?_⟩)
        · simp [readDirEntryFrom, hd, he, hf]
        · simp [scan, hd, he, hf]
    | lfn data =>
      by_cases hf : data.isFree
      · exact readAgrees_cons b.clear (off + dirEntrySize) (by simp [readDirEntryFrom, hd, hf])
          (by simp [scan, hd, hf]) (ih _ _ _)
      · exact readAgrees_cons (b.process data) beg (by simp [readDirEntryFrom, hd, hf])
          (by simp [scan, hd, hf]) (ih _ _ _)

/-! ## The iterator is the fused scan -/

theorem collect_eq_scan (st : DirStream) :
    ∀ (fuel k : Nat), k ≤ st.slots.length → st.slots.length - k + 2 ≤ fuel →
      DirIter.collect st fuel ⟨dirEntrySize * k, false⟩ =
        scan .new (dirEntrySize * k) (dirEntrySize * k) (st.slots.drop k)
  | 0, _, _, hf => by omega
  | fuel + 1, k, hk, hf => by
    have hread : readDirEntry st (dirEntrySize * k) =
        readDirEntryFrom .new (dirEntrySize * k) (dirEntrySize * k) (st.slots.drop k) := by
      rw [readDirEntry, Nat.mul_div_cancel_left _ (by decide)]
    rcases readAgrees .new (dirEntrySize * k) (dirEntrySize * k) (st.slots.drop k) with
      ⟨p, h1, h2⟩ | ⟨f, p, h1, h2⟩ | ⟨e, n, hn, h1, h2⟩
    · rw [h2, DirIter.collect, DirIter.next, if_neg Bool.false_ne_true, hread, h1]
    · obtain ⟨fuel, rfl⟩ : ∃ m, fuel = m + 1 := ⟨fuel - 1, by omega⟩
      rw [h2, DirIter.collect, DirIter.next, if_neg Bool.false_ne_true, hread, h1]
      rfl
    · rw [List.length_drop] at hn
      have hk' : dirEntrySize * k + dirEntrySize * (n + 1) = dirEntrySize * (k + (n + 1)) := (Nat.mul_add _ _ _).symm
      rw [h2, DirIter.collect, DirIter.next, if_neg Bool.false_ne_true, hread, h1]
      dsimp only
      rw [hk', collect_eq_scan st fuel (k + (n + 1)) (by omega) (by omega), List.drop_drop]

/-- The iterator run to its end yields what the scan of the whole stream yields, and stops in the same state. -/
theorem run_eq_scan (st : DirStream) : DirIter.run st = scan .new 0 0 st.slots :=
  collect_eq_scan st _ 0 (Nat.zero_le _) (by omega)

end FatDir
