import FatDir.IterSpec

/-!
# What the iterator yields, and what an entry depends on

`iterSpec` says what iterating any directory yields, terminated or not: the expected entries before the first
short terminator, or, when there is none, all of them and then the error of reading past the end. The iterator
yields exactly that (`items_eq_iterSpec`).

An expected entry depends only on its own run of slots. Two slot lists that agree from a point where both start a
fresh run (the start of the directory, or just after a boundary slot) expect the same entry at every slot up to which
they keep agreeing (`liveAt_congr`). Every operation that writes slots is framed by this lemma: the entries before
the slots it writes, and those after a boundary that follows them, do not change.
-/

namespace FatDir

/-- A short slot whose first byte is 0: where `read_dir_entry` stops. -/
def Slot.isShortEnd (s : Slot) : Bool :=
  match s.decode with
  | .file d => d.isEnd
  | .lfn _ => false

/-- The index of the first short terminator. -/
def firstEnd : List Slot → Option Nat
  | [] => none
  | s :: rest => if s.isShortEnd then some 0 else (firstEnd rest).map (· + 1)

/-- What iterating a directory yields: the expected entries before the first short terminator; without one, all
the expected entries and then the error of reading past the end. -/
def iterSpec (slots : List Slot) : List (Except Fault DirEntry) :=
  match firstEnd slots with
  | some m => (liveEntries slots m).map .ok
  | none => (liveEntries slots slots.length).map .ok ++ [.error eofError]

theorem iterSpec_eq (slots : List Slot) :
    iterSpec slots = (liveEntries slots ((firstEnd slots).getD slots.length)).map .ok ++
      (if (firstEnd slots).isSome then [] else [.error eofError]) := by
  unfold iterSpec
  cases firstEnd slots <;> simp

/-- No short terminator among the slots `[a, b)`. -/
def EndFree (slots : List Slot) (a b : Nat) : Prop := ∀ j s, a ≤ j → j < b → slots[j]? = some s → s.isShortEnd = false

/-! ## The first terminator -/

theorem firstEnd_eq_some :
    ∀ {slots : List Slot} {m : Nat} {s : Slot}, slots[m]? = some s → s.isShortEnd = true → EndFree slots 0 m →
      firstEnd slots = some m
  | [], _, _, h, _, _ => by simp at h
  | x :: rest, 0, s, h, he, _ => by
    obtain rfl : x = s := by simpa using h
    simp [firstEnd, he]
  | x :: rest, m + 1, s, h, he, hfree => by
    have hx : x.isShortEnd = false := hfree 0 x le_rfl (by omega) (List.getElem?_cons_zero ..)
    have hr : firstEnd rest = some m := firstEnd_eq_some (by simpa using h) he fun j s' _ hj hs' =>
      hfree (j + 1) s' (by omega) (by omega) (by simpa using hs')
    simp [firstEnd, hx, hr]

theorem firstEnd_eq_none : ∀ {slots : List Slot}, EndFree slots 0 slots.length → firstEnd slots = none
  | [], _ => rfl
  | x :: rest, hfree => by
    have hx : x.isShortEnd = false := hfree 0 x le_rfl (by simp) (List.getElem?_cons_zero ..)
    have hr : firstEnd rest = none := firstEnd_eq_none fun j s' _ hj hs' =>
      hfree (j + 1) s' (by omega) (by simpa using hj) (by simpa using hs')
    simp [firstEnd, hx, hr]

theorem firstEnd_spec : ∀ {slots : List Slot} {m : Nat}, firstEnd slots = some m →
    (∃ s, slots[m]? = some s ∧ s.isShortEnd = true) ∧ EndFree slots 0 m
  | [], _, h => by simp [firstEnd] at h
  | x :: rest, m, h => by
    unfold firstEnd at h
    split at h
    · cases h
      exact ⟨⟨x, List.getElem?_cons_zero .., ‹_›⟩, fun j _ _ hj => absurd hj (Nat.not_lt_zero j)⟩
    · obtain ⟨m', hm', rfl⟩ := Option.map_eq_some'.mp h
      obtain ⟨⟨s, hs, he⟩, hfree⟩ := firstEnd_spec hm'
      refine ⟨⟨s, by simpa using hs, he⟩, fun j s' _ hj hs' => ?_⟩
      rcases j with _ | j
      · obtain rfl : x = s' := by simpa using hs'
        exact Bool.eq_false_iff.mpr ‹_›
      · exact hfree j s' (Nat.zero_le _) (by omega) (by simpa using hs')

theorem firstEnd_none_spec : ∀ {slots : List Slot}, firstEnd slots = none → EndFree slots 0 slots.length
  | [], _ => fun j _ _ hj => absurd hj (Nat.not_lt_zero j)
  | x :: rest, h => by
    unfold firstEnd at h
    split at h
    · cases h
    · have hfree := firstEnd_none_spec (Option.map_eq_none'.mp h)
      intro j s' _ hj hs'
      rcases j with _ | j
      · obtain rfl : x = s' := by simpa using hs'
        exact Bool.eq_false_iff.mpr ‹_›
      · exact hfree j s' (Nat.zero_le _) (by simpa using hj) (by simpa using hs')

/-- Two slot lists with the same short terminators have the same first one. -/
theorem firstEnd_congr : ∀ {s₁ s₂ : List Slot}, (∀ j : Nat, s₁[j]?.map Slot.isShortEnd = s₂[j]?.map Slot.isShortEnd) →
    firstEnd s₁ = firstEnd s₂
  | [], [], _ => rfl
  | [], _ :: _, h => by simpa using h 0
  | _ :: _, [], h => by simpa using h 0
  | x :: xs, y :: ys, h => by
    have hx : x.isShortEnd = y.isShortEnd := by simpa using h 0
    simp only [firstEnd, hx, firstEnd_congr fun j => by simpa using h (j + 1)]

/-! ## The iterator yields `iterSpec` -/

/-- From slot `i` on, with a short terminator at `m` and none before it, the scan yields the expected entries of
`[i, m)` and stops after slot `m`. -/
theorem scan_of_end {slots : List Slot} {m : Nat} {e : Slot} (hm : slots[m]? = some e) (he : e.isShortEnd = true) :
    ∀ (rest : List Slot) (i : Nat) (b : LongNameBuilder), slots.drop i = rest → i ≤ m → EndFree slots i m →
      b.Alike (specBuilder slots i) →
      scan b (dirEntrySize * runStart slots i) (dirEntrySize * i) rest =
        (((List.range' i (m - i)).filterMap (liveAt slots)).map .ok, ⟨dirEntrySize * (m + 1), false⟩)
  | [], i, _, hd, hi, _, _ => by
    have := List.drop_eq_nil_iff.mp hd
    have := (List.getElem?_eq_some_iff.mp hm).1
    omega
  | s :: rest, i, b, hd, hi, hfree, hb => by
    have hs := getElem?_of_drop_eq hd
    rcases Nat.eq_or_lt_of_le hi with rfl | hlt
    · obtain rfl : s = e := Option.some.inj (hs.symm.trans hm)
      cases hdec : s.decode with
      | file d =>
        have hd' : d.isEnd = true := by simpa [Slot.isShortEnd, hdec] using he
        simp [scan, hdec, hd', Nat.mul_succ]
      | lfn d => simp [Slot.isShortEnd, hdec] at he
    · obtain ⟨b', hb', heq⟩ := scan_step hd hb fun d hdec => by
        simpa [Slot.isShortEnd, hdec] using hfree i s le_rfl hlt hs
      rw [heq, scan_of_end hm he rest (i + 1) b' (drop_succ_of_drop_eq hd) hlt
        (fun j s' h₁ h₂ h₃ => hfree j s' (by omega) h₂ h₃) hb', show m - i = m - (i + 1) + 1 by omega,
        List.range'_succ, List.filterMap_cons]
      cases liveAt slots i <;> simp

/-- From slot `i` on, with no short terminator left, the scan yields the expected entries of all the slots from `i`
and then the error of reading past the end. -/
theorem scan_of_no_end {slots : List Slot} :
    ∀ (rest : List Slot) (i : Nat) (b : LongNameBuilder), slots.drop i = rest → i ≤ slots.length →
      EndFree slots i slots.length → b.Alike (specBuilder slots i) →
      scan b (dirEntrySize * runStart slots i) (dirEntrySize * i) rest =
        (((List.range' i (slots.length - i)).filterMap (liveAt slots)).map .ok ++ [.error eofError],
          ⟨dirEntrySize * slots.length, true⟩)
  | [], i, _, hd, hi, _, _ => by
    obtain rfl : i = slots.length := le_antisymm hi (List.drop_eq_nil_iff.mp hd)
    simp [scan]
  | s :: rest, i, b, hd, hi, hfree, hb => by
    have hs := getElem?_of_drop_eq hd
    have hlt : i < slots.length := (List.getElem?_eq_some_iff.mp hs).1
    obtain ⟨b', hb', heq⟩ := scan_step hd hb fun d hdec => by
      simpa [Slot.isShortEnd, hdec] using hfree i s le_rfl hlt hs
    rw [heq, scan_of_no_end rest (i + 1) b' (drop_succ_of_drop_eq hd) hlt
      (fun j s' h₁ h₂ h₃ => hfree j s' (by omega) h₂ h₃) hb', show slots.length - i = slots.length - (i + 1) + 1 by
      omega, List.range'_succ, List.filterMap_cons]
    cases liveAt slots i <;> simp

/-- Iterating any directory yields `iterSpec` of its slots. -/
theorem items_eq_iterSpec (st : DirStream) : DirIter.items st = iterSpec st.slots := by
  have h0 : scan .new 0 0 st.slots =
      scan .new (dirEntrySize * runStart st.slots 0) (dirEntrySize * 0) (st.slots.drop 0) := by
    rw [runStart_zero]
    rfl
  have hb : LongNameBuilder.new.Alike (specBuilder st.slots 0) := by
    rw [specBuilder, runStart_zero, fragmentsIn_self]
    exact LongNameBuilder.alike_refl _
  rw [DirIter.items, run_eq_scan, h0, iterSpec]
  cases hm : firstEnd st.slots with
  | some m =>
    obtain ⟨⟨e, he, hend⟩, hfree⟩ := firstEnd_spec hm
    dsimp only
    rw [scan_of_end he hend _ 0 _ rfl (Nat.zero_le _) hfree hb, Nat.sub_zero, liveEntries, List.range_eq_range']
  | none =>
    dsimp only
    rw [scan_of_no_end _ 0 _ rfl (Nat.zero_le _) (firstEnd_none_spec hm) hb, Nat.sub_zero, liveEntries,
      List.range_eq_range']

/-! ## Runs that agree -/

/-- Two slot lists that agree on the indices `[a, b)`. -/
def Agree (s₁ s₂ : List Slot) (a b : Nat) : Prop := ∀ j, a ≤ j → j < b → s₁[j]? = s₂[j]?

theorem Agree.mono {s₁ s₂ : List Slot} {a b a' b' : Nat} (h : Agree s₁ s₂ a b) (ha : a ≤ a') (hb : b' ≤ b) :
    Agree s₁ s₂ a' b' := fun j h₁ h₂ => h j (by omega) (by omega)

section Runs

variable {slots : List Slot} {i : Nat}

theorem runStart_succ_of_none (h : slots[i]? = none) : runStart slots (i + 1) = runStart slots i + 1 := by
  have hl : slots.length ≤ i := List.getElem?_eq_none_iff.mp h
  have hw : ((slots.reverse.takeWhile fun s => !s.IsBoundary)).length ≤ i :=
    ((List.takeWhile_prefix _).length_le).trans (by simp [hl])
  rw [runStart, runStart, List.take_of_length_le (by omega), List.take_of_length_le hl]
  omega

/-- The start of the run up to a slot is decided by that slot and the start of the run up to the one before. -/
theorem runStart_succ_eq : runStart slots (i + 1) =
    match slots[i]? with
    | some s => if s.IsBoundary then i + 1 else runStart slots i
    | none => runStart slots i + 1 := by
  cases h : slots[i]? with
  | some s => exact runStart_succ h
  | none => exact runStart_succ_of_none h

theorem runStart_congr {s₁ s₂ : List Slot} {a : Nat} (h : runStart s₁ a = runStart s₂ a) :
    ∀ t, a ≤ t → Agree s₁ s₂ a t → runStart s₁ t = runStart s₂ t := by
  intro t hat
  induction t, hat using Nat.le_induction with
  | base => exact fun _ => h
  | succ t hat ih =>
    intro hagree
    rw [runStart_succ_eq, runStart_succ_eq, hagree t hat (Nat.lt_succ_self t),
      ih (hagree.mono le_rfl (Nat.le_succ t))]

theorem le_runStart {a : Nat} (h : runStart slots a = a) : ∀ t, a ≤ t → a ≤ runStart slots t := by
  intro t hat
  induction t, hat using Nat.le_induction with
  | base => exact h.ge
  | succ t hat ih =>
    rw [runStart_succ_eq]
    split
    · split
      · exact Nat.le_succ_of_le hat
      · exact ih
    · exact Nat.le_succ_of_le ih

theorem fragmentsIn_congr {s₁ s₂ : List Slot} {r t : Nat} (h : Agree s₁ s₂ r t) :
    fragmentsIn s₁ r t = fragmentsIn s₂ r t := by
  unfold fragmentsIn
  congr 1
  apply List.ext_getElem?
  intro k
  rw [List.getElem?_drop, List.getElem?_drop, List.getElem?_take, List.getElem?_take]
  split
  · exact h (r + k) (Nat.le_add_right r k) ‹_›
  · rfl

/-- Two slot lists that both start a fresh run at `a` and agree from there up to slot `t` expect the same entry at
slot `t`. -/
theorem liveAt_congr {s₁ s₂ : List Slot} {a t : Nat} (h₁ : runStart s₁ a = a) (h₂ : runStart s₂ a = a)
    (hat : a ≤ t) (h : Agree s₁ s₂ a (t + 1)) : liveAt s₁ t = liveAt s₂ t := by
  have hr : runStart s₁ t = runStart s₂ t :=
    runStart_congr (h₁.trans h₂.symm) t hat (h.mono le_rfl (Nat.le_succ t))
  have hf : fragmentsIn s₁ (runStart s₁ t) t = fragmentsIn s₂ (runStart s₂ t) t := by
    rw [← hr]
    exact fragmentsIn_congr (h.mono (le_runStart h₁ t hat) (Nat.le_succ t))
  unfold liveAt entryAt
  rw [h t hat (Nat.lt_succ_self t), hf, hr]

/-- A boundary slot starts a fresh run after it. -/
theorem runStart_of_boundary {s : Slot} (h : slots[i]? = some s) (hs : s.IsBoundary) :
    runStart slots (i + 1) = i + 1 := by
  rw [runStart_succ h, if_pos hs]

/-- A slot that is not a boundary keeps the run going. -/
theorem runStart_of_not_boundary {s : Slot} (h : slots[i]? = some s) (hs : s.IsBoundary = false) :
    runStart slots (i + 1) = runStart slots i := by
  rw [runStart_succ h, hs, if_neg Bool.false_ne_true]

end Runs

/-! ## Slots by kind -/

section Kinds

variable {slots : List Slot} {t : Nat} {s : Slot}

theorem Slot.liveFragment_of_lfn {d : DirLfnEntryData} (h : s.decode = .lfn d) (hf : d.isFree = false) :
    s.liveFragment = some d := by
  simp [Slot.liveFragment, h, hf]

theorem Slot.isBoundary_of_lfn {d : DirLfnEntryData} (h : s.decode = .lfn d) (hf : d.isFree = false) :
    s.IsBoundary = false := by
  simp [Slot.IsBoundary, Slot.IsYielded, DirEntryData.isFree, h, hf]

theorem Slot.isShortEnd_of_lfn {d : DirLfnEntryData} (h : s.decode = .lfn d) : s.isShortEnd = false := by
  simp [Slot.isShortEnd, h]

theorem Slot.isBoundary_of_free (h : s.decode.isFree = true) : s.IsBoundary = true := by
  simp [Slot.IsBoundary, h]

theorem Slot.isShortEnd_of_free (h : s.decode.isFree = true) : s.isShortEnd = false := by
  unfold Slot.isShortEnd
  cases hd : s.decode with
  | file d =>
    simp only [hd, DirEntryData.isFree, DirFileEntryData.isFree, beq_iff_eq] at h
    simp [DirFileEntryData.isEnd, h, dirEntryFreeFlag]
  | lfn d => rfl

/-- A short slot that is neither free nor a volume label is yielded, and so is a boundary. -/
theorem Slot.isBoundary_of_file {d : DirFileEntryData} (h : s.decode = .file d) (hf : d.isFree = false)
    (hv : d.attrs.contains .volumeId = false) : s.IsBoundary = true := by
  simp [Slot.IsBoundary, Slot.IsYielded, h, hf, hv]

theorem liveAt_of_lfn {d : DirLfnEntryData} (hs : slots[t]? = some s) (h : s.decode = .lfn d) :
    liveAt slots t = none := by
  simp [liveAt, hs, h]

theorem liveAt_of_free (hs : slots[t]? = some s) (h : s.decode.isFree = true) : liveAt slots t = none := by
  unfold liveAt
  cases hd : s.decode with
  | file d =>
    simp only [hd, DirEntryData.isFree] at h
    simp [hs, hd, h]
  | lfn d => simp [hs, hd]

theorem liveAt_of_file {d : DirFileEntryData} (hs : slots[t]? = some s) (h : s.decode = .file d)
    (hf : d.isFree = false) (hv : d.attrs.contains .volumeId = false) : liveAt slots t = some (entryAt slots t d) := by
  simp [liveAt, hs, h, hf, hv]

/-- Over slots that are not boundaries the run goes on. -/
theorem runStart_of_no_boundary {a : Nat} :
    ∀ b, a ≤ b → (∀ j, a ≤ j → j < b → ∃ s, slots[j]? = some s ∧ s.IsBoundary = false) →
      runStart slots b = runStart slots a := by
  intro b hab
  induction b, hab using Nat.le_induction with
  | base => exact fun _ => rfl
  | succ b hab ih =>
    intro h
    obtain ⟨s, hs, hb⟩ := h b hab (Nat.lt_succ_self b)
    rw [runStart_of_not_boundary hs hb, ih fun j h₁ h₂ => h j h₁ (by omega)]

theorem fragmentsIn_append {a b c : Nat} (hab : a ≤ b) (hbc : b ≤ c) :
    fragmentsIn slots a c = fragmentsIn slots a b ++ fragmentsIn slots b c := by
  have hsplit : (slots.take c).drop a = (slots.take b).drop a ++ (slots.take c).drop b := by
    rw [List.drop_take, List.drop_take, List.drop_take, show c - a = (b - a) + (c - b) by omega, List.take_add, List.drop_drop, Nat.add_sub_cancel' hab]
  rw [fragmentsIn, fragmentsIn, fragmentsIn, hsplit, List.filterMap_append]

end Kinds

/-! ## The expected entries in pieces -/

theorem liveEntries_add (slots : List Slot) (a b : Nat) :
    liveEntries slots (a + b) = liveEntries slots a ++ (List.range' a b).filterMap (liveAt slots) := by
  have h := List.range'_append_1 0 a b
  rw [Nat.zero_add, Nat.add_comm b a] at h
  rw [liveEntries, liveEntries, List.range_eq_range', List.range_eq_range', ← h, List.filterMap_append]

theorem liveEntries_add_add (slots : List Slot) (a b c : Nat) :
    liveEntries slots (a + b + c) = liveEntries slots a ++ (List.range' a b).filterMap (liveAt slots) ++
      (List.range' (a + b) c).filterMap (liveAt slots) := by
  rw [liveEntries_add, liveEntries_add]

theorem filterMap_liveAt_congr {s₁ s₂ : List Slot} {a b : Nat} (h : ∀ j, a ≤ j → j < a + b → liveAt s₁ j = liveAt s₂ j) :
    (List.range' a b).filterMap (liveAt s₁) = (List.range' a b).filterMap (liveAt s₂) :=
  List.filterMap_congr fun j hj => h j (List.mem_range'_1.mp hj).1 (List.mem_range'_1.mp hj).2

theorem filterMap_liveAt_eq_nil {slots : List Slot} {a b : Nat} (h : ∀ j, a ≤ j → j < a + b → liveAt slots j = none) :
    (List.range' a b).filterMap (liveAt slots) = [] :=
  List.filterMap_eq_nil_iff.mpr fun j hj => h j (List.mem_range'_1.mp hj).1 (List.mem_range'_1.mp hj).2

end FatDir
