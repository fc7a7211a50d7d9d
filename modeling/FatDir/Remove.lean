import FatDir.Volume

/-!
# Removing an entry

`remove` of a one-component name marks every slot of the entry `find_entry` returns free, and only those: the
iterator then yields what it yielded before but that entry (`remove_removes_entry`, stated by `RemovesEntry`). A name
with a `/` is trimmed by `split_path` first, so the entry removed need not be the one `find_entry` finds for the
untrimmed name (`remove_trims_name`).

The proof follows the slots. The entry found is the expected entry of a yielded short slot `t` before the first
terminator (`mem_iterSpec`); its range is the run `[runStart t, t]`, whose other slots are live fragments. Marked free,
the run yields nothing, it adds no terminator, and the slots on both sides of it still start and end their runs where
they did (`liveAt_markRange`), so the expected entries lose exactly the one at `t` (`iterSpec_erase`).

A component `.` names the directory it is in: `remove` of `n/.` frees the chain of the directory `n` while the entry
`n` still points at it (`remove_dot_frees_live_chain`).
-/

namespace FatDir

/-! ## Slots marked free -/

theorem DirEntryData.isFree_eq_head? : ∀ e : DirEntryData, e.isFree = (e.serialize.head? == some dirEntryFreeFlag)
  | .file d => by
    simp [DirEntryData.isFree, DirFileEntryData.isFree, DirEntryData.serialize, DirFileEntryData.serialize,
      Mathlib.Vector.head?_toList]
  | .lfn d => by simp [DirEntryData.isFree, DirLfnEntryData.isFree, DirEntryData.serialize, DirLfnEntryData.serialize]

/-- A slot whose first byte is the free flag decodes as free, whichever its shape. -/
theorem Slot.decode_isFree_of_head? {s : Slot} (h : s.toList.head? = some dirEntryFreeFlag) :
    s.decode.isFree = true := by
  rw [DirEntryData.isFree_eq_head?, (serialize_decode s).1, List.head?_eq_getElem?,
    List.getElem?_set_ne (by decide), ← List.head?_eq_getElem?, h]
  rfl

theorem markFree_head? (s : Slot) : (markFree s).toList.head? = some dirEntryFreeFlag := by
  unfold markFree
  cases s.decode with
  | file d =>
    have h : (d.name.toList.set 0 dirEntryFreeFlag).head? = some dirEntryFreeFlag := by
      rw [List.head?_eq_getElem?, List.getElem?_set_self (by simp)]
    simp [DirEntryData.toSlot, DirEntryData.serialize, DirFileEntryData.serialize, h]
  | lfn d => simp [DirEntryData.toSlot, DirEntryData.serialize, DirLfnEntryData.serialize]

theorem markFree_get_zero (s : Slot) : (markFree s).get 0 = dirEntryFreeFlag := by
  have h := markFree_head? s
  rw [Mathlib.Vector.head?_toList] at h
  rw [Mathlib.Vector.get_zero, Option.some.inj h]

theorem decode_markFree_isFree (s : Slot) : (markFree s).decode.isFree = true :=
  Slot.decode_isFree_of_head? (markFree_head? s)

/-! ## The entry `find_entry` returns -/

/-- An entry the iterator yields is the expected entry of a slot before the first terminator. -/
theorem mem_iterSpec {slots : List Slot} {e : DirEntry} (h : .ok e ∈ iterSpec slots) :
    ∃ t, liveAt slots t = some e ∧ t < slots.length ∧ EndFree slots 0 (t + 1) := by
  have key : ∀ M, M ≤ slots.length → EndFree slots 0 M → e ∈ liveEntries slots M →
      ∃ t, liveAt slots t = some e ∧ t < slots.length ∧ EndFree slots 0 (t + 1) := by
    intro M hM hfree he
    obtain ⟨t, ht, hte⟩ := List.mem_filterMap.mp he
    have htM := List.mem_range.mp ht
    exact ⟨t, hte, by omega, fun j s h₁ h₂ => hfree j s h₁ (by omega)⟩
  unfold iterSpec at h
  split at h
  · obtain ⟨⟨s, hs, -⟩, hfree⟩ := firstEnd_spec ‹_›
    exact key _ (List.getElem?_eq_some_iff.mp hs).1.le hfree (by simpa using h)
  · exact key _ le_rfl (firstEnd_none_spec ‹_›) (by simpa using h)

theorem liveAt_eq_some {slots : List Slot} {t : Nat} {e : DirEntry} (h : liveAt slots t = some e) :
    ∃ s d, slots[t]? = some s ∧ s.decode = .file d ∧ d.isFree = false ∧ d.attrs.contains .volumeId = false ∧
      e = entryAt slots t d := by
  unfold liveAt at h
  cases hs : slots[t]? with
  | none => simp [hs] at h
  | some s =>
    cases hd : s.decode with
    | lfn d => simp [hs, hd] at h
    | file d =>
      simp only [hs, hd, Option.map_some'] at h
      split at h
      · next hc =>
        cases h
        simp only [Bool.and_eq_true, Bool.not_eq_true'] at hc
        exact ⟨s, d, rfl, hd, hc.1, hc.2, rfl⟩
      · cases h

theorem liveAt_of_not_boundary {slots : List Slot} {t : Nat} {s : Slot} (hs : slots[t]? = some s)
    (hb : s.IsBoundary = false) : liveAt slots t = none := by
  unfold liveAt
  cases hd : s.decode with
  | lfn d => simp [hs, hd]
  | file d =>
    simp only [Slot.IsBoundary, Slot.IsYielded, hd, Bool.or_eq_false_iff] at hb
    simp [hs, hd, hb.2]

/-! ## The iterator after erasing one expected entry -/

section Erase

variable {old new : List Slot} {t : Nat} {e : DirEntry}

/-- Slot lists whose expected entries differ only at slot `t`, where `old` expects `e` and `new` nothing: before
any bound past `t`, `new` expects what `old` does but `e`. -/
theorem liveEntries_erase (hte : liveAt old t = some e) (htn : liveAt new t = none)
    (h : ∀ j, j ≠ t → liveAt new j = liveAt old j) {M : Nat} (hM : t < M) :
    ∃ L, liveEntries old M = liveEntries old t ++ e :: L ∧ liveEntries new M = liveEntries old t ++ L := by
  obtain ⟨k, rfl⟩ : ∃ k, M = t + 1 + k := ⟨M - (t + 1), by omega⟩
  have hpre : liveEntries new t = liveEntries old t :=
    List.filterMap_congr fun j hj => h j (Nat.ne_of_lt (List.mem_range.mp hj))
  have hpost := @filterMap_liveAt_congr new old (t + 1) k fun j hj _ => h j (by omega)
  refine ⟨(List.range' (t + 1) k).filterMap (liveAt old), ?_, ?_⟩
  · simp [liveEntries_add_add, hte]
  · simp [liveEntries_add_add, hpre, hpost, htn]

/-- With the same length and first terminator, and `t` before it, `new` yields what `old` yields but `e`. -/
theorem iterSpec_erase (hl : new.length = old.length) (hf : firstEnd new = firstEnd old)
    (hte : liveAt old t = some e) (htn : liveAt new t = none) (h : ∀ j, j ≠ t → liveAt new j = liveAt old j)
    (htl : t < old.length) (hend : EndFree old 0 (t + 1)) :
    ∃ pre post, iterSpec old = pre ++ .ok e :: post ∧ iterSpec new = pre ++ post := by
  unfold iterSpec
  rw [hf, hl]
  cases hfe : firstEnd old with
  | some m =>
    obtain ⟨⟨s, hs, hse⟩, -⟩ := firstEnd_spec hfe
    have hm : t < m := Nat.lt_of_not_le fun hle => absurd (hend m s (Nat.zero_le m) (by omega) hs) (by simp [hse])
    obtain ⟨L, h₁, h₂⟩ := liveEntries_erase hte htn h hm
    exact ⟨(liveEntries old t).map .ok, L.map .ok, by simp [h₁], by simp [h₂]⟩
  | none =>
    obtain ⟨L, h₁, h₂⟩ := liveEntries_erase hte htn h htl
    exact ⟨(liveEntries old t).map .ok, L.map .ok ++ [.error eofError], by simp [h₁], by simp [h₂]⟩

end Erase

/-! ## Marking the run of an entry -/

section Mark

variable {slots : List Slot} {t : Nat} {s : Slot} {d : DirFileEntryData}
  (hs : slots[t]? = some s) (hdec : s.decode = .file d) (hfree : d.isFree = false)
  (hvol : d.attrs.contains .volumeId = false)

include hs in
theorem getElem?_markRange_run {j : Nat} (h₁ : runStart slots t ≤ j) (h₂ : j ≤ t) :
    ∃ s', slots[j]? = some s' ∧ (markRange slots (runStart slots t) (t + 1 - runStart slots t))[j]? =
      some (markFree s') := by
  have hj : j < slots.length := by have := (List.getElem?_eq_some_iff.mp hs).1; omega
  refine ⟨slots[j], List.getElem?_eq_getElem hj, ?_⟩
  rw [getElem?_markRange, if_pos (by omega), List.getElem?_eq_getElem hj]
  rfl

theorem getElem?_markRange_out {j : Nat} (h : j < runStart slots t ∨ t < j) :
    (markRange slots (runStart slots t) (t + 1 - runStart slots t))[j]? = slots[j]? := by
  rw [getElem?_markRange, if_neg (by omega)]

include hs hdec hfree hvol in
/-- Marking the run of the yielded slot `t` erases its entry and keeps every other expected entry. -/
theorem liveAt_markRange (j : Nat) :
    liveAt (markRange slots (runStart slots t) (t + 1 - runStart slots t)) j =
      if j = t then none else liveAt slots j := by
  have hr := runStart_le slots t
  set r := runStart slots t
  set new := markRange slots r (t + 1 - r)
  by_cases hjr : j < r
  · rw [if_neg (by omega)]
    exact liveAt_congr (runStart_zero _) (runStart_zero _) (Nat.zero_le j)
      fun k _ hk => getElem?_markRange_out (.inl (by omega))
  by_cases hjt : j ≤ t
  · obtain ⟨s', hs', hn⟩ := getElem?_markRange_run hs (by omega) hjt
    rw [liveAt_of_free hn (decode_markFree_isFree s')]
    split
    · rfl
    · exact (liveAt_of_not_boundary hs' (not_boundary_of_run (t := t) (by omega) (by omega) hs')).symm
  · rw [if_neg (by omega)]
    obtain ⟨s', _, hn⟩ := getElem?_markRange_run hs (runStart_le slots t) le_rfl
    have hnew : runStart new (t + 1) = t + 1 := runStart_of_boundary hn (Slot.isBoundary_of_free (decode_markFree_isFree s'))
    have hold : runStart slots (t + 1) = t + 1 := runStart_of_boundary hs (Slot.isBoundary_of_file hdec hfree hvol)
    exact liveAt_congr hnew hold (by omega) fun k hk _ => getElem?_markRange_out (.inr (by omega))

include hs in
/-- Marking a run before the first terminator keeps the first terminator. -/
theorem firstEnd_markRange (hend : EndFree slots 0 (t + 1)) :
    firstEnd (markRange slots (runStart slots t) (t + 1 - runStart slots t)) = firstEnd slots := by
  refine firstEnd_congr fun j => ?_
  by_cases hj : runStart slots t ≤ j ∧ j ≤ t
  · obtain ⟨s', hs', hn⟩ := getElem?_markRange_run hs hj.1 hj.2
    rw [hn, hs', Option.map_some', Option.map_some', Slot.isShortEnd_of_free (decode_markFree_isFree s'),
      hend j s' (Nat.zero_le j) (by omega) hs']
  · rw [getElem?_markRange_out (by omega)]

end Mark

/-! ## `remove` -/

/-- What removing the entry `e` from the directory `old` should leave in `new`: every slot of `e`'s range starting
with the free flag, every other slot as it was, and the iterator yielding what it yielded before but `e`. -/
structure RemovesEntry (old new : DirStream) (e : DirEntry) : Prop where
  length_eq : new.slots.length = old.slots.length
  marked : ∀ j, e.offsetRange.1 / dirEntrySize ≤ j → j < e.offsetRange.2 / dirEntrySize →
    ∃ s, new.slots[j]? = some s ∧ s.get 0 = dirEntryFreeFlag
  kept : ∀ j, j < e.offsetRange.1 / dirEntrySize ∨ e.offsetRange.2 / dirEntrySize ≤ j → new.slots[j]? = old.slots[j]?
  items : ∃ pre post, DirIter.items old = pre ++ .ok e :: post ∧ DirIter.items new = pre ++ post

/-- The only way `remove`'s last step succeeds: the check of a directory passes, the chain is freed and the loop
writes every slot of the range. -/
theorem removeEntry_ok {v : Volume} {d : Option Nat} {e : DirEntry} (h : (removeEntry v d e).1 = .ok ()) :
    (markLoop ((e.offsetRange.2 - e.offsetRange.1) / dirEntrySize) (e.offsetRange.1 / dirEntrySize)
      (v.stream d)).1 = .ok () ∧
    (removeEntry v d e).2 = (v.freeChain e.firstCluster).setStream d
      (markLoop ((e.offsetRange.2 - e.offsetRange.1) / dirEntrySize) (e.offsetRange.1 / dirEntrySize)
        (v.stream d)).2 ∧
    (e.isDir → isEmpty (v.stream e.firstCluster) = .ok true) := by
  have hc : (if e.isDir then isEmpty (v.stream e.firstCluster) else .ok true) = .ok true := by
    unfold removeEntry at h
    split at h
    · cases h
    · cases h
    · assumption
  have hr : removeEntry v d e =
      ((markLoop ((e.offsetRange.2 - e.offsetRange.1) / dirEntrySize) (e.offsetRange.1 / dirEntrySize)
        (v.stream d)).1, (v.freeChain e.firstCluster).setStream d
      (markLoop ((e.offsetRange.2 - e.offsetRange.1) / dirEntrySize) (e.offsetRange.1 / dirEntrySize)
        (v.stream d)).2) := by
    rw [removeEntry, hc]
    simp only [Volume.stream_freeChain]
  rw [hr] at h ⊢
  exact ⟨h, rfl, fun hd => by rwa [if_pos hd] at hc⟩

/-- One component names the entry `find_entry` finds: `remove` is its last step on that entry. -/
theorem remove_of_not_mem {v : Volume} {d : Option Nat} {name : String} {e : DirEntry} (hname : '/' ∉ name.data)
    (hfind : findEntry (v.stream d) name = .ok e) : remove v d name = removeEntry v d e := by
  rw [remove, walk_of_not_mem _ hname, hfind]
  rfl

/-- An entry `find_entry` returns is the expected entry of a yielded short slot before the first terminator. -/
theorem entryAt_of_findEntry {st : DirStream} {name : String} {e : DirEntry} (h : findEntry st name = .ok e) :
    ∃ t s d, st.slots[t]? = some s ∧ s.decode = .file d ∧ d.isFree = false ∧ d.attrs.contains .volumeId = false ∧
      EndFree st.slots 0 (t + 1) ∧ e = entryAt st.slots t d := by
  obtain ⟨-, pre, post, hitems⟩ := findIn_ok h
  have hmem : .ok e ∈ iterSpec st.slots := by
    rw [← items_eq_iterSpec, hitems]
    exact List.mem_append_right _ (List.mem_cons_self _ _)
  obtain ⟨t, hte, -, hend⟩ := mem_iterSpec hmem
  obtain ⟨s, d, hs, hdec, hfree, hvol, rfl⟩ := liveAt_eq_some hte
  exact ⟨t, s, d, hs, hdec, hfree, hvol, hend, rfl⟩

/-- The loop of `remove` on the expected entry of slot `t` marks the run of slot `t`. -/
theorem markLoop_entryAt {st : DirStream} {t : Nat} {s : Slot} (d : DirFileEntryData) (hs : st.slots[t]? = some s) :
    markLoop (((entryAt st.slots t d).offsetRange.2 - (entryAt st.slots t d).offsetRange.1) / dirEntrySize)
      ((entryAt st.slots t d).offsetRange.1 / dirEntrySize) st =
      (.ok (), { st with slots := markRange st.slots (runStart st.slots t) (t + 1 - runStart st.slots t) }) := by
  have htl : t < st.slots.length := (List.getElem?_eq_some_iff.mp hs).1
  have hr := runStart_le st.slots t
  have hnum : ((entryAt st.slots t d).offsetRange.2 - (entryAt st.slots t d).offsetRange.1) / dirEntrySize =
      t + 1 - runStart st.slots t := by
    simp only [entryAt, dirEntrySize]
    omega
  have hstart : (entryAt st.slots t d).offsetRange.1 / dirEntrySize = runStart st.slots t := by
    simp [entryAt, dirEntrySize]
  rw [hnum, hstart, markLoop_of_le _ _ _ (by omega)]

/-- Inside a directory, marking the run of a yielded slot before the first terminator removes its entry. -/
theorem removesEntry_markRange {st : DirStream} {t : Nat} {s : Slot} {d : DirFileEntryData}
    (hs : st.slots[t]? = some s) (hdec : s.decode = .file d) (hfree : d.isFree = false)
    (hvol : d.attrs.contains .volumeId = false) (hend : EndFree st.slots 0 (t + 1)) :
    RemovesEntry st { st with slots := markRange st.slots (runStart st.slots t) (t + 1 - runStart st.slots t) }
      (entryAt st.slots t d) := by
  have htl : t < st.slots.length := (List.getElem?_eq_some_iff.mp hs).1
  have hr := runStart_le st.slots t
  have h₁ : (entryAt st.slots t d).offsetRange.1 / dirEntrySize = runStart st.slots t := by
    simp [entryAt, dirEntrySize]
  have h₂ : (entryAt st.slots t d).offsetRange.2 / dirEntrySize = t + 1 := by simp [entryAt, dirEntrySize]
  have hlive := liveAt_markRange hs hdec hfree hvol
  refine ⟨length_markRange _ _ _, fun j hj₁ hj₂ => ?_, fun j hj => getElem?_markRange_out (t := t) (by omega), ?_⟩
  · obtain ⟨s', -, hn⟩ := getElem?_markRange_run (j := j) hs (by omega) (by omega)
    exact ⟨_, hn, markFree_get_zero s'⟩
  · rw [items_eq_iterSpec, items_eq_iterSpec]
    exact iterSpec_erase (length_markRange _ _ _) (firstEnd_markRange hs hend)
      (liveAt_of_file hs hdec hfree hvol) (by rw [hlive, if_pos rfl])
      (fun j hj => by rw [hlive, if_neg hj]) htl hend

/-- `remove` of a one-component name, when it succeeds, removes the entry `find_entry` finds for the name from the
directory, and leaves every other directory alone. -/
theorem remove_removes_entry {v : Volume} {d : Option Nat} {name : String} {e : DirEntry}
    (hname : '/' ∉ name.data) (hfind : findEntry (v.stream d) name = .ok e) (hok : (remove v d name).1 = .ok ()) :
    RemovesEntry (v.stream d) ((remove v d name).2.stream d) e ∧
      ∀ d', d' ≠ d → (remove v d name).2.stream d' = v.stream d' := by
  rw [remove_of_not_mem hname hfind] at hok ⊢
  obtain ⟨-, hv, -⟩ := removeEntry_ok hok
  obtain ⟨t, s, dd, hs, hdec, hfree, hvol, hend, rfl⟩ := entryAt_of_findEntry hfind
  rw [hv, markLoop_entryAt dd hs]
  refine ⟨?_, fun d' hd' => by rw [Volume.stream_setStream_of_ne _ hd', Volume.stream_freeChain]⟩
  rw [Volume.stream_setStream_self]
  exact removesEntry_markRange hs hdec hfree hvol hend

theorem remove_removes_entry_a :
    let v : Volume := ⟨(createFileEntry ⟨List.replicate 3 zeroSlot, none⟩ "a").2, fun _ => ⟨[], some 1⟩, []⟩
    let e : DirEntry := ⟨rawEntry ⟨0x41 :: List.replicate 10 0x20, rfl⟩, [0x61], (0, 64)⟩
    ('/' ∉ "a".data ∧ findEntry (v.stream none) "a" = .ok e ∧ (remove v none "a").1 = .ok ()) ∧
      RemovesEntry (v.stream none) ((remove v none "a").2.stream none) e ∧
      ∀ d', d' ≠ none → (remove v none "a").2.stream d' = v.stream d' :=
  have h : '/' ∉ "a".data ∧ _ ∧ _ := ⟨by decide, by decide, by decide⟩
  ⟨h, remove_removes_entry h.1 h.2.1 h.2.2⟩

/-- A trailing `/` is trimmed before the lookup: with entries `X` and `X/`, `find_entry` finds `X/` at slots 2 and 3,
but `remove` of `X/` removes `X` and leaves the order byte of `X/`'s fragment as it was. -/
theorem remove_trims_name :
    let v : Volume :=
      ⟨(createFileEntry (createFileEntry ⟨List.replicate 6 zeroSlot, none⟩ "X").2 "X/").2, fun _ => ⟨[], some 1⟩, []⟩
    (findEntry (v.stream none) "X/").map DirEntry.offsetRange = .ok (64, 128) ∧ (remove v none "X/").1 = .ok () ∧
      ((remove v none "X/").2.stream none).slots[2]?.map (Mathlib.Vector.get · 0) = some 0x41 ∧
      ((remove v none "X/").2.stream none).slots[0]?.map (Mathlib.Vector.get · 0) = some dirEntryFreeFlag := by
  decide

/-! ## Removing `.` -/

theorem DirEntry.toDir_eq_ok {e : DirEntry} {x : Option Nat} :
    e.toDir = .ok x ↔ e.isDir = true ∧ e.firstCluster = x := by
  unfold DirEntry.toDir
  split <;> simp_all

/-- `remove` of `n/.`, where `n` names a directory on the chain at `c` that holds only `.` and `..`, with `.` (the
entry `x`) on `c` itself: the call succeeds and frees `c`, while the entry `n` still points at `c`. -/
theorem remove_dot_frees_live_chain {v : Volume} {d : Option Nat} {n : String} {e x : DirEntry} {c : Nat}
    (hn : '/' ∉ n.data) (hn0 : n.data ≠ []) (hd : d ≠ some c)
    (he : findEntry (v.stream d) n = .ok e) (hdir : e.toDir = .ok (some c))
    (hdot : findEntry (v.stream (some c)) "." = .ok x) (hdot' : x.toDir = .ok (some c))
    (hempty : isEmpty (v.stream (some c)) = .ok true) :
    (remove v d (n ++ "/.")).1 = .ok () ∧ (remove v d (n ++ "/.")).2.freed = v.freed ++ [c] ∧
      findEntry ((remove v d (n ++ "/.")).2.stream d) n = .ok e ∧ e.firstCluster = some c := by
  have hwalk : remove v d (n ++ "/.") = remove v (some c) "." := by
    rw [(congrArg (n ++ ·) (by decide : "/." = "/" ++ ".")).trans (String.append_assoc _ _ _).symm, remove, walk_eq,
      splitPath_two hn hn0 (by decide) (by decide)]
    dsimp only
    rw [he, Except.bind, hdir]
    rfl
  obtain ⟨hisdir, hc⟩ := DirEntry.toDir_eq_ok.mp hdot'
  obtain ⟨t, s, dd, hs, -, -, -, -, rfl⟩ := entryAt_of_findEntry hdot
  have hrm : remove v (some c) "." = (.ok (), (v.freeChain (some c)).setStream (some c)
      { v.stream (some c) with slots := (markRange (v.stream (some c)).slots (runStart (v.stream (some c)).slots t)
        (t + 1 - runStart (v.stream (some c)).slots t)) }) := by
    rw [remove_of_not_mem (by decide) hdot, removeEntry, if_pos hisdir, hc, hempty]
    dsimp only
    rw [Volume.stream_freeChain, markLoop_entryAt dd hs]
  rw [hwalk, hrm]
  refine ⟨rfl, by simp, ?_, (DirEntry.toDir_eq_ok.mp hdir).2⟩
  rw [Volume.stream_setStream_of_ne _ hd, Volume.stream_freeChain, he]

/-- The short entry of a directory on the chain at `c`, named by its eleven name bytes. -/
def dirData (name : List UInt8) (h : name.length = 11) (c : UInt16) : DirFileEntryData :=
  { (default : DirFileEntryData) with name := ⟨name, h⟩, attrs := FileAttributes.directory, firstClusterLo := c }

/-- A root directory holding the directory `D` on the chain at 5, which holds `.` on 5 and `..` on the root. -/
def dotVolume : Volume where
  root := ⟨[(DirEntryData.file (dirData (0x44 :: List.replicate 10 0x20) rfl 5)).toSlot, zeroSlot], none⟩
  chain n := if n = 5 then
      ⟨[(DirEntryData.file (dirData (0x2E :: List.replicate 10 0x20) rfl 5)).toSlot,
        (DirEntryData.file (dirData (0x2E :: 0x2E :: List.replicate 9 0x20) rfl 0)).toSlot, zeroSlot], some 16⟩
    else ⟨[], some 16⟩
  freed := []

theorem remove_dot_frees_live_chain_d :
    ((remove dotVolume none ("D" ++ "/.")).1 = .ok () ∧ (remove dotVolume none ("D" ++ "/.")).2.freed = [] ++ [5] ∧
      findEntry ((remove dotVolume none ("D" ++ "/.")).2.stream none) "D" =
        .ok ⟨dirData (0x44 :: List.replicate 10 0x20) rfl 5, [], (0, 32)⟩ ∧
      DirEntry.firstCluster ⟨dirData (0x44 :: List.replicate 10 0x20) rfl 5, [], (0, 32)⟩ = some 5) :=
  remove_dot_frees_live_chain (x := ⟨dirData (0x2E :: List.replicate 10 0x20) rfl 5, [], (0, 32)⟩)
    (by decide) (by decide) (by decide) (by decide) (by decide) (by decide) (by decide) (by decide)

end FatDir
