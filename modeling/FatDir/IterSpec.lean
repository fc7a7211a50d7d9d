import FatDir.Iter

/-!
# What iterating a directory yields

The directory as a list of slots, and the entries a reader of the format expects from it, stated slot by slot
(`liveEntries`): one entry for each short slot before the terminator that is neither free nor a volume label, in slot
order. Its range starts one past the last slot before it that is free, a volume label or another such short slot
(`runStart`), and its long name is what the builder makes of the live LFN fragments in that range, checked against
its short name.

* One slot of the scan yields that slot's entry, if any, and keeps the builder alike to the one of the
  specification (`scan_step`).
* If the iterator ends without error after reading slots `0 .. m`, slot `m` is a short terminator, the iterator has
  yielded exactly `liveEntries`, and their ranges are slot-aligned, disjoint and increasing (`iter_yields_live`).
-/

namespace FatDir

namespace Slot

/-- A slot `DirIter` yields: a short entry neither free nor a volume label. -/
def IsYielded (s : Slot) : Bool :=
  match s.decode with
  | .file d => !d.isFree && !d.attrs.contains .volumeId
  | .lfn _ => false

/-- A slot after which a long name starts afresh: a free slot of either shape, a volume-ID short slot or a yielded
short slot. -/
def IsBoundary (s : Slot) : Bool :=
  s.decode.isFree || (match s.decode with | .file d => d.attrs.contains .volumeId | .lfn _ => false) || s.IsYielded

/-- The fragment an LFN slot adds to a long name, unless it is free. -/
def liveFragment (s : Slot) : Option DirLfnEntryData :=
  match s.decode with
  | .lfn d => if d.isFree then none else some d
  | .file _ => none

end Slot

/-- The first slot of the run that ends at slot `t`: one past the last boundary slot before `t`, or 0. -/
def runStart (slots : List Slot) (t : Nat) : Nat :=
  t - ((slots.take t).reverse.takeWhile fun s => !s.IsBoundary).length

/-- The fragments of the live LFN slots among the slots `[s, t)`. -/
def fragmentsIn (slots : List Slot) (s t : Nat) : List DirLfnEntryData :=
  ((slots.take t).drop s).filterMap Slot.liveFragment

/-- The entry expected for the yielded short slot `t` holding `d`: its data, the long name the builder makes of the
fragments of its run checked against its short name, and the byte range of its run. -/
def entryAt (slots : List Slot) (t : Nat) (d : DirFileEntryData) : DirEntry :=
  ⟨d, ((LongNameBuilder.new.feed (fragmentsIn slots (runStart slots t) t)).validateChksum d.name).toVec,
    (dirEntrySize * runStart slots t, dirEntrySize * (t + 1))⟩

/-- The entry expected for slot `t`, if it is a yielded short slot. -/
def liveAt (slots : List Slot) (t : Nat) : Option DirEntry :=
  match slots[t]?.map Slot.decode with
  | some (.file d) => if !d.isFree && !d.attrs.contains .volumeId then some (entryAt slots t d) else none
  | _ => none

/-- The entries expected for the yielded short slots before slot `m`, in slot order. -/
def liveEntries (slots : List Slot) (m : Nat) : List DirEntry := (List.range m).filterMap (liveAt slots)

/-- Ranges that are slot-aligned and not empty, each ending where or before the next one begins. -/
def RangesOrdered (es : List DirEntry) : Prop :=
  (∀ e ∈ es, dirEntrySize ∣ e.offsetRange.1 ∧ dirEntrySize ∣ e.offsetRange.2 ∧ e.offsetRange.1 < e.offsetRange.2) ∧
    es.Pairwise fun e e' => e.offsetRange.2 ≤ e'.offsetRange.1

/-! ## Runs -/

section Runs

variable {slots : List Slot} {i : Nat} {s : Slot}

theorem length_takeWhile_le_of_getElem? {α : Type} {p : α → Bool} :
    ∀ {l : List α} {j : Nat} {a : α}, l[j]? = some a → p a = false → (l.takeWhile p).length ≤ j
  | [], _, _, h, _ => by simp at h
  | x :: l, 0, a, h, hp => by
    obtain rfl : x = a := by simpa using h
    simp [List.takeWhile_cons, hp]
  | x :: l, j + 1, a, h, hp => by
    rw [List.takeWhile_cons]
    split
    · exact Nat.succ_le_succ (length_takeWhile_le_of_getElem? (by simpa using h) hp)
    · exact Nat.zero_le _

theorem getElem?_of_drop_eq {rest : List Slot} (h : slots.drop i = s :: rest) : slots[i]? = some s := by
  rw [← Nat.add_zero i, ← List.getElem?_drop, h]
  simp

theorem drop_succ_of_drop_eq {rest : List Slot} (h : slots.drop i = s :: rest) : slots.drop (i + 1) = rest := by
  rw [← List.drop_drop 1 i slots, h]
  rfl

theorem runStart_le (slots : List Slot) (t : Nat) : runStart slots t ≤ t := Nat.sub_le _ _

theorem runStart_zero (slots : List Slot) : runStart slots 0 = 0 := Nat.zero_sub _

theorem runStart_succ (h : slots[i]? = some s) :
    runStart slots (i + 1) = if s.IsBoundary then i + 1 else runStart slots i := by
  have hl : ((slots.take i).reverse.takeWhile fun s => !s.IsBoundary).length ≤ i :=
    ((List.takeWhile_prefix _).length_le).trans (by simp)
  rw [runStart, runStart, List.take_succ, h, Option.toList_some, List.reverse_append, List.reverse_singleton,
    List.singleton_append, List.takeWhile_cons]
  cases s.IsBoundary
  · simp only [Bool.not_false, if_true, List.length_cons, Bool.false_eq_true, if_false]
    omega
  · simp

/-- A boundary slot before `t` ends every run that reaches `t`. -/
theorem lt_runStart {t t' : Nat} (ht : t < t') (h : slots[t]? = some s) (hs : s.IsBoundary) :
    t + 1 ≤ runStart slots t' := by
  have hlt : t < slots.length := (List.getElem?_eq_some_iff.mp h).1
  have hn : (slots.take t').length = min t' slots.length := List.length_take ..
  have hrev : (slots.take t').reverse[(slots.take t').length - 1 - t]? = some s := by
    rw [List.getElem?_reverse (by omega), show (slots.take t').length - 1 - ((slots.take t').length - 1 - t) = t
      by omega, List.getElem?_take_of_lt ht, h]
  have := length_takeWhile_le_of_getElem? (p := fun s => !s.IsBoundary) hrev (by simp [hs])
  rw [runStart]
  omega

/-- The slots of a run before its short slot are no boundaries. -/
theorem not_boundary_of_run {t j : Nat} (hj : runStart slots t ≤ j) (hjt : j < t) (hs : slots[j]? = some s) :
    s.IsBoundary = false :=
  Bool.eq_false_iff.mpr fun hb => absurd (lt_runStart hjt hs hb) (by omega)

/-- A slot that is no boundary is a live LFN fragment. -/
theorem Slot.liveFragment_isSome (h : s.IsBoundary = false) : s.liveFragment.isSome := by
  unfold Slot.IsBoundary Slot.IsYielded at h
  unfold Slot.liveFragment
  cases hd : s.decode with
  | file d =>
    rw [hd] at h
    cases hf : d.isFree <;> cases hv : d.attrs.contains .volumeId <;> simp [DirEntryData.isFree, hf, hv] at h
  | lfn d =>
    rw [hd] at h
    simp_all [DirEntryData.isFree]

theorem fragmentsIn_self (slots : List Slot) (i : Nat) : fragmentsIn slots i i = [] := by
  rw [fragmentsIn, List.drop_eq_nil_of_le (by simp), List.filterMap_nil]

theorem fragmentsIn_succ (h : slots[i]? = some s) {st : Nat} (hst : st ≤ i) :
    fragmentsIn slots st (i + 1) = fragmentsIn slots st i ++ s.liveFragment.toList := by
  have hlt : i < slots.length := (List.getElem?_eq_some_iff.mp h).1
  rw [fragmentsIn, fragmentsIn, List.take_succ, h, Option.toList_some,
    List.drop_append_of_le_length (by simp; omega), List.filterMap_append]
  rcases hf : s.liveFragment with _ | d <;> simp [List.filterMap_cons, hf]

end Runs

/-! ## The scan against the specification -/

/-- The builder of the specification at slot `i`: a new one fed the fragments of the run up to `i`. -/
def specBuilder (slots : List Slot) (i : Nat) : LongNameBuilder :=
  LongNameBuilder.new.feed (fragmentsIn slots (runStart slots i) i)

theorem specBuilder_of_boundary {slots : List Slot} {i : Nat} {s : Slot} (h : slots[i]? = some s)
    (hs : s.IsBoundary) : specBuilder slots (i + 1) = .new := by
  rw [specBuilder, runStart_succ h, if_pos hs, fragmentsIn_self]
  rfl

/-- One slot that is not a terminator: the scan yields that slot's expected entry, if any, and goes on with a
builder alike to the one of the specification. -/
theorem scan_step {slots rest : List Slot} {i : Nat} {s : Slot} {b : LongNameBuilder}
    (hd : slots.drop i = s :: rest) (hb : b.Alike (specBuilder slots i))
    (he : ∀ d, s.decode = .file d → d.isEnd = false) :
    ∃ b', b'.Alike (specBuilder slots (i + 1)) ∧
      scan b (dirEntrySize * runStart slots i) (dirEntrySize * i) (s :: rest) =
        (((liveAt slots i).map .ok).toList ++
          (scan b' (dirEntrySize * runStart slots (i + 1)) (dirEntrySize * (i + 1)) rest).1,
          (scan b' (dirEntrySize * runStart slots (i + 1)) (dirEntrySize * (i + 1)) rest).2) := by
  have hs := getElem?_of_drop_eq hd
  have hoff : dirEntrySize * i + dirEntrySize = dirEntrySize * (i + 1) := (Nat.mul_succ _ _).symm
  cases hdec : s.decode with
  | file d =>
    have hend := he d hdec
    by_cases hf : (d.isFree || d.attrs.contains .volumeId) = true
    · have hB : s.IsBoundary := by
        simp only [Slot.IsBoundary, DirEntryData.isFree, hdec]
        revert hf
        cases d.isFree <;> cases d.attrs.contains .volumeId <;> simp
      refine ⟨b.clear, specBuilder_of_boundary hs hB ▸ LongNameBuilder.clear_alike_new b, ?_⟩
      have hl : liveAt slots i = none := by
        simp only [liveAt, hs, Option.map_some', hdec]
        revert hf
        cases d.isFree <;> cases d.attrs.contains .volumeId <;> simp
      simp [scan, hdec, hend, hf, hoff, runStart_succ hs, hB, hl]
    · have hB : s.IsBoundary := by
        simp only [Slot.IsBoundary, Slot.IsYielded, hdec]
        revert hf
        cases d.isFree <;> cases d.attrs.contains .volumeId <;> simp
      refine ⟨.new, specBuilder_of_boundary hs hB ▸ LongNameBuilder.alike_refl _, ?_⟩
      have hl : liveAt slots i = some (entryAt slots i d) := by
        simp only [liveAt, hs, Option.map_some', hdec]
        revert hf
        cases d.isFree <;> cases d.attrs.contains .volumeId <;> simp
      simp only [scan, hdec, hend, hf, hoff, runStart_succ hs, hB, hl, if_true, Bool.false_eq_true, if_false,
        Option.map_some', Option.toList_some, List.singleton_append, entryAt, specBuilder,
        LongNameBuilder.Alike.toVec_validateChksum hb]
  | lfn d =>
    by_cases hf : d.isFree
    · have hB : s.IsBoundary := by simp [Slot.IsBoundary, DirEntryData.isFree, hdec, hf]
      refine ⟨b.clear, specBuilder_of_boundary hs hB ▸ LongNameBuilder.clear_alike_new b, ?_⟩
      have hl : liveAt slots i = none := by simp [liveAt, hs, hdec]
      simp [scan, hdec, hf, hoff, runStart_succ hs, hB, hl]
    · have hB : s.IsBoundary = false := by simp [Slot.IsBoundary, Slot.IsYielded, DirEntryData.isFree, hdec, hf]
      refine ⟨b.process d, ?_, ?_⟩
      · have hfr : s.liveFragment = some d := by simp [Slot.liveFragment, hdec, hf]
        rw [specBuilder, runStart_succ hs, hB, if_neg Bool.false_ne_true,
          fragmentsIn_succ hs (runStart_le slots i), hfr, Option.toList_some, LongNameBuilder.feed_append]
        exact hb.process d
      · have hl : liveAt slots i = none := by simp [liveAt, hs, hdec]
        simp [scan, hdec, hf, hoff, runStart_succ hs, hB, hl]

/-- The scan from slot `i` ends without error after slot `m` only if `m` is a short terminator, and then it has
yielded the expected entries of the slots `[i, m)`. -/
theorem scan_live {slots : List Slot} {m : Nat} :
    ∀ (rest : List Slot) (i : Nat) (b : LongNameBuilder), slots.drop i = rest → b.Alike (specBuilder slots i) →
      (scan b (dirEntrySize * runStart slots i) (dirEntrySize * i) rest).2 = ⟨dirEntrySize * (m + 1), false⟩ →
      i ≤ m ∧ (∃ d, slots[m]?.map Slot.decode = some (.file d) ∧ d.isEnd) ∧
        (scan b (dirEntrySize * runStart slots i) (dirEntrySize * i) rest).1 =
          ((List.range' i (m - i)).filterMap (liveAt slots)).map .ok
  | [], _, _, _, _, h => by simp [scan] at h
  | s :: rest, i, b, hd, hb, h => by
    have hs := getElem?_of_drop_eq hd
    by_cases hend : ∃ d, s.decode = .file d ∧ d.isEnd
    · obtain ⟨d, hdec, he⟩ := hend
      have hscan : scan b (dirEntrySize * runStart slots i) (dirEntrySize * i) (s :: rest) =
          ([], ⟨dirEntrySize * i + dirEntrySize, false⟩) := by simp [scan, hdec, he]
      rw [hscan] at h ⊢
      obtain rfl : i = m := by
        simp only [DirIter.mk.injEq, and_true, dirEntrySize] at h
        omega
      exact ⟨le_rfl, ⟨d, by simp [hs, hdec], he⟩, by simp⟩
    · obtain ⟨b', hb', heq⟩ := scan_step hd hb fun d hdec => by simpa [hdec] using hend
      rw [heq] at h ⊢
      obtain ⟨h1, h2, h3⟩ := scan_live rest (i + 1) b' (drop_succ_of_drop_eq hd) hb' h
      refine ⟨by omega, h2, ?_⟩
      rw [h3, show m - i = m - (i + 1) + 1 by omega, List.range'_succ, List.filterMap_cons]
      cases liveAt slots i <;> simp

/-! ## The iterator yields the live entries -/

theorem rangesOrdered_liveEntries (slots : List Slot) (m : Nat) : RangesOrdered (liveEntries slots m) := by
  have hlive : ∀ t e, liveAt slots t = some e → ∃ d, slots[t]?.map Slot.decode = some (.file d) ∧
      (!d.isFree && !d.attrs.contains .volumeId) = true ∧ e = entryAt slots t d := by
    intro t e h
    unfold liveAt at h
    split at h
    · split at h
      · exact ⟨_, ‹_›, ‹_›, (Option.some.inj h).symm⟩
      · cases h
    · cases h
  constructor
  · intro e he
    obtain ⟨t, -, ht⟩ := List.mem_filterMap.mp he
    obtain ⟨d, -, -, rfl⟩ := hlive t e ht
    have := runStart_le slots t
    exact ⟨Dvd.intro _ rfl, Dvd.intro _ rfl, by simp only [entryAt, dirEntrySize]; omega⟩
  · refine (List.pairwise_lt_range m).filterMap _ fun t t' htt' e he e' he' => ?_
    obtain ⟨d, hd, hy, rfl⟩ := hlive t e (Option.mem_def.mp he)
    obtain ⟨d', -, -, rfl⟩ := hlive t' e' (Option.mem_def.mp he')
    obtain ⟨s, hs, hsd⟩ := Option.map_eq_some'.mp hd
    have hB : s.IsBoundary := by simp [Slot.IsBoundary, Slot.IsYielded, hsd, hy]
    have := lt_runStart htt' hs hB
    simp only [entryAt, dirEntrySize]
    omega

/-- If the iterator ends without error after reading slots `0 .. m`, then slot `m` is a short terminator, and the
iterator has yielded exactly the expected entries of the slots before it, with slot-aligned, disjoint and
increasing ranges. -/
theorem iter_yields_live (st : DirStream) (m : Nat) (h : (DirIter.run st).2 = ⟨dirEntrySize * (m + 1), false⟩) :
    (∃ d, st.slots[m]?.map Slot.decode = some (.file d) ∧ d.isEnd) ∧
      DirIter.items st = (liveEntries st.slots m).map .ok ∧ RangesOrdered (liveEntries st.slots m) := by
  have h0 : scan .new 0 0 st.slots =
      scan .new (dirEntrySize * runStart st.slots 0) (dirEntrySize * 0) (st.slots.drop 0) := by
    rw [runStart_zero]
    rfl
  rw [run_eq_scan, h0] at h
  obtain ⟨-, hend, hitems⟩ := scan_live _ 0 _ rfl
    (by rw [specBuilder, runStart_zero, fragmentsIn_self]; exact LongNameBuilder.alike_refl _) h
  refine ⟨hend, ?_, rangesOrdered_liveEntries _ _⟩
  rw [DirIter.items, run_eq_scan, h0, hitems, liveEntries, List.range_eq_range', Nat.sub_zero]

/-- A directory holding the short entry `A` and then its terminator. -/
theorem iter_yields_live_one :
    let st : DirStream := ⟨[(DirEntryData.file { (default : DirFileEntryData) with
      name := ⟨0x41 :: List.replicate 10 0x20, rfl⟩ }).toSlot, zeroSlot], none⟩
    (DirIter.run st).2 = ⟨dirEntrySize * (1 + 1), false⟩ ∧
      (∃ d, st.slots[1]?.map Slot.decode = some (.file d) ∧ d.isEnd) ∧
        DirIter.items st = (liveEntries st.slots 1).map .ok ∧ RangesOrdered (liveEntries st.slots 1) :=
  ⟨by decide, iter_yields_live _ 1 (by decide)⟩

end FatDir
