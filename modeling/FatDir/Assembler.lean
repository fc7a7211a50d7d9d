import FatDir.Create

/-!
# The long-name assembler

`LongNameBuilder` carries the bound `13 * index ≤ len` as a field, so its copies are plain list edits. The source's
builder has no such field: each of the three `copy_from_slice`s of `process` slices the buffer and would panic past
its end. `RawBuilder` is that builder, with the copies checked.

* From any builder of the model, the source's `process` does not panic and gives the model's next builder
  (`process_toRaw`); so a run from `new` over any fragments never panics (`foldlM_process_toRaw`).
* After the last fragment that opens a group (the LAST flag and an index `N ≠ 0`), the builder reaches index 1
  exactly when the fragments that follow are `N - 1, ..., 1` without the flag under the group's checksum, and it
  then holds their units in index order (`feed_chain`).
* `validate_chksum` and `to_vec` then give the long name the documentation describes (`longName_assembly`).
-/

namespace FatDir

/-! ## The source's builder -/

/-- `buf[lo..lo + src.len()].copy_from_slice(src)`: the panic of a range that ends past the buffer, else the copy. -/
def copyFromSlice (buf : List UInt16) (lo : Nat) (src : List UInt16) : Except Fault (List UInt16) :=
  if lo + src.length ≤ buf.length then .ok (buf.take lo ++ src ++ buf.drop (lo + src.length))
  else .error (sliceEndError (lo + src.length) buf.length)

/-- The three `copy_from_slice`s at the end of `process`: `name_0`, `name_1` and `name_2` from `pos` on. -/
def copyParts (buf : List UInt16) (pos : Nat) (data : DirLfnEntryData) : Except Fault (List UInt16) := do
  let buf ← copyFromSlice buf (pos + 0) data.name0.toList
  let buf ← copyFromSlice buf (pos + 5) data.name1.toList
  copyFromSlice buf (pos + 11) data.name2.toList

/-- `LongNameBuilder` as the source has it: nothing ties the buffer's length to the index. -/
structure RawBuilder where
  buf : List UInt16
  chksum : UInt8
  index : Nat
  deriving DecidableEq

namespace RawBuilder

/-- `LongNameBuilder::new`. -/
def new : RawBuilder := ⟨[], 0, 0⟩

/-- `clear`. -/
def clear (b : RawBuilder) : RawBuilder := { b with buf := [], index := 0 }

/-- `process`, with its slices checked. -/
def process (b : RawBuilder) (data : DirLfnEntryData) : Except Fault RawBuilder :=
  let isLast := (data.order &&& lfnEntryLastFlag) != 0
  let index := (data.order &&& 0x1F).toNat
  if index = 0 then .ok b.clear
  else
    let taken : Option RawBuilder :=
      if isLast then some ⟨resize b.buf (index * lfnPartLen), data.checksum, index⟩
      else if b.index = 0 ∨ index ≠ b.index - 1 ∨ data.checksum ≠ b.chksum then none
      else some { b with index := b.index - 1 }
    match taken with
    | none => .ok b.clear
    | some b => (copyParts b.buf (lfnPartLen * (index - 1)) data).map fun buf => { b with buf := buf }

end RawBuilder

/-- The source's builder that a builder of the model stands for. -/
def LongNameBuilder.toRaw (b : LongNameBuilder) : RawBuilder := ⟨b.buf, b.chksum, b.index⟩

/-! ## The copies stay in the buffer -/

theorem copyFromSlice_append {pre rest src : List UInt16} {lo : Nat} (hlo : pre.length = lo)
    (h : src.length ≤ rest.length) : copyFromSlice (pre ++ rest) lo src = .ok (pre ++ src ++ rest.drop src.length) := by
  subst hlo
  rw [copyFromSlice, if_pos (by simp only [List.length_append]; omega), List.take_left' rfl, List.drop_append]

/-- Inside the buffer, the three copies put the fragment's units in place of the 13 units from `pos`. -/
theorem copyParts_of_le {buf : List UInt16} {pos : Nat} (h : pos + lfnPartLen ≤ buf.length) (d : DirLfnEntryData) :
    copyParts buf pos d = .ok (buf.take pos ++ d.units ++ buf.drop (pos + lfnPartLen)) := by
  simp only [lfnPartLen] at h ⊢
  have hA : (buf.take pos).length = pos := by simp only [List.length_take]; omega
  rw [copyParts, Nat.add_zero]
  conv_lhs => rw [← List.take_append_drop pos buf]
  rw [copyFromSlice_append hA (by simp; omega)]
  simp only [bind, Except.bind]
  rw [copyFromSlice_append (by simp [hA]) (by simp; omega)]
  simp only [bind, Except.bind]
  rw [copyFromSlice_append (by simp [hA]) (by simp; omega)]
  simp only [List.drop_drop, DirLfnEntryData.units, List.append_assoc, List.length_drop,
    Mathlib.Vector.toList_length]

theorem copyParts_eq_copyPart {buf : List UInt16} {index : Nat} (h0 : 0 < index)
    (h : lfnPartLen * index ≤ buf.length) (d : DirLfnEntryData) :
    copyParts buf (lfnPartLen * (index - 1)) d = .ok (copyPart buf index d) := by
  rw [copyParts_of_le (by simp only [lfnPartLen] at h ⊢; omega), copyPart]

/-- The source's `process` from a builder of the model: no panic, and the model's next builder. -/
theorem process_toRaw (b : LongNameBuilder) (d : DirLfnEntryData) : b.toRaw.process d = .ok (b.process d).toRaw := by
  unfold RawBuilder.process LongNameBuilder.process LongNameBuilder.toRaw
  dsimp only
  split_ifs with h0 hl hg
  · rfl
  · dsimp only
    rw [copyParts_eq_copyPart (Nat.pos_of_ne_zero h0) (by rw [length_resize, Nat.mul_comm])]
    rfl
  · rfl
  · simp only [not_or, not_not] at hg
    have hfit := b.fits
    dsimp only
    rw [copyParts_eq_copyPart (Nat.pos_of_ne_zero h0) (by simp only [lfnPartLen] at hfit ⊢; omega)]
    rfl

/-- A run of the source's `process` from a builder of the model never panics. -/
theorem foldlM_process_toRaw : ∀ (ds : List DirLfnEntryData) (b : LongNameBuilder),
    ds.foldlM RawBuilder.process b.toRaw = .ok (b.feed ds).toRaw
  | [], _ => rfl
  | d :: ds, b => by
    rw [List.foldlM_cons, process_toRaw]
    exact foldlM_process_toRaw ds (b.process d)

/-! ## The fragments after the last opening -/

/-- A fragment that opens a group: the LAST flag and a nonzero index. -/
def opensGroup (d : DirLfnEntryData) : Bool := (d.order &&& lfnEntryLastFlag) != 0 && (d.order &&& 0x1F) != 0

/-- The last fragment that opens a group, and the fragments after it. -/
def lastOpening : List DirLfnEntryData → Option (DirLfnEntryData × List DirLfnEntryData)
  | [] => none
  | d :: ds =>
    match lastOpening ds with
    | some p => some p
    | none => if opensGroup d then some (d, ds) else none

/-- The fragments go on down a group with checksum `c` from index `k + 1`: indices `k, ..., 1` in that order, none with
the LAST flag, all with checksum `c`. -/
def continuesGroup (c : UInt8) : Nat → List DirLfnEntryData → Bool
  | 0, [] => true
  | k + 1, d :: ds =>
    (d.order &&& 0x1F).toNat == k + 1 && (d.order &&& lfnEntryLastFlag) == 0 && d.checksum == c &&
      continuesGroup c k ds
  | _, _ => false

/-- The long name the documentation describes for the fragments before a short entry named `s`: after the last
fragment that opens a group with index `N`, the fragments `N - 1, ..., 1` without the flag and under its checksum,
which is `s`'s; then the units of the fragments `1, ..., N` without the trailing `0` and `0xFFFF`. Else nothing. -/
def specLongName (ds : List DirLfnEntryData) (s : Mathlib.Vector UInt8 11) : List UInt16 :=
  match lastOpening ds with
  | some (top, rest) =>
    if continuesGroup top.checksum ((top.order &&& 0x1F).toNat - 1) rest && top.checksum == lfnChecksum s then
      LongNameBuilder.truncate (rest.reverse.flatMap DirLfnEntryData.units ++ top.units)
    else []
  | none => []

theorem lastOpening_none : ∀ {ds : List DirLfnEntryData}, lastOpening ds = none → ∀ d ∈ ds, opensGroup d = false
  | [], _ => by simp
  | d :: ds, h => by
    simp only [lastOpening] at h
    split at h
    · cases h
    · next hn =>
      split at h
      · cases h
      · exact List.forall_mem_cons.mpr ⟨Bool.eq_false_iff.mpr ‹_›, lastOpening_none hn⟩

theorem lastOpening_some : ∀ {ds rest : List DirLfnEntryData} {top : DirLfnEntryData},
    lastOpening ds = some (top, rest) →
      ∃ pre, ds = pre ++ top :: rest ∧ opensGroup top = true ∧ ∀ d ∈ rest, opensGroup d = false
  | [], _, _, h => by cases h
  | d :: ds, rest, top, h => by
    simp only [lastOpening] at h
    split at h
    · next p hp =>
      cases h
      obtain ⟨pre, rfl, ht, hr⟩ := lastOpening_some hp
      exact ⟨d :: pre, rfl, ht, hr⟩
    · next hn =>
      split at h
      · cases h
        exact ⟨[], rfl, ‹_›, lastOpening_none hn⟩
      · cases h

/-! ## Feeding fragments that open nothing -/

namespace LongNameBuilder

variable {b : LongNameBuilder} {d : DirLfnEntryData}

/-- A fragment that opens nothing clears the builder unless it is the next one of the group under way. -/
theorem process_eq_clear (hd : opensGroup d = false)
    (hc : ¬(d.Fragment (b.index - 1) false b.chksum ∧ 0 < b.index - 1)) : b.process d = b.clear := by
  simp only [DirLfnEntryData.Fragment, not_and, opensGroup, Bool.and_eq_false_iff, bne_eq_false_iff_eq] at hd hc
  unfold process
  dsimp only
  split_ifs with h0 hl hg
  · rfl
  · rcases hd with hd | hd
    · simp [hd] at hl
    · exact absurd (by rw [hd]; rfl) h0
  · rfl
  · simp only [not_or, not_not] at hg
    simp only [bne_iff_ne, ne_eq, not_not] at hl
    exact absurd (Nat.pos_of_ne_zero h0) (by rw [hg.2.1]; exact hc ⟨hg.2.1, hl, hg.2.2⟩)

theorem index_clear (b : LongNameBuilder) : b.clear.index = 0 := rfl

theorem drop_copyPart_succ {buf : List UInt16} {k : Nat} (d : DirLfnEntryData) (h : lfnPartLen * (k + 1) ≤ buf.length) :
    (copyPart buf (k + 1) d).drop (lfnPartLen * k) = d.units ++ buf.drop (lfnPartLen * (k + 1)) :=
  drop_copyPart d k.succ_pos h

/-- A builder with no group under way stays so over fragments that open nothing. -/
theorem feed_index_zero : ∀ {rest : List DirLfnEntryData}, (∀ d ∈ rest, opensGroup d = false) →
    ∀ {b : LongNameBuilder}, b.index = 0 → (b.feed rest).index = 0
  | [], _, _, hb => hb
  | d :: rest, hr, b, hb => by
    rw [feed_cons, process_eq_clear (hr d (List.mem_cons_self _ _)) (by simp [hb])]
    exact feed_index_zero (fun d' hd' => hr d' (List.mem_cons_of_mem _ hd')) (index_clear b)

/-- Fragments that open nothing, after a builder at index `k + 1`: the builder reaches index 1 exactly when they go
on down the group, and then holds their units before the rest of its buffer from `13 * k` on. -/
theorem feed_chain : ∀ {rest : List DirLfnEntryData}, (∀ d ∈ rest, opensGroup d = false) →
    ∀ {k : Nat} {b : LongNameBuilder}, b.index = k + 1 →
      ((b.feed rest).index = 1 ↔ continuesGroup b.chksum k rest) ∧
      (continuesGroup b.chksum k rest → (b.feed rest).chksum = b.chksum ∧
        (b.feed rest).buf = rest.reverse.flatMap DirLfnEntryData.units ++ b.buf.drop (lfnPartLen * k))
  | [], _, k, b, hb => by cases k <;> simp [continuesGroup, hb]
  | d :: rest, hr, k, b, hb => by
    have hrest := fun d' hd' => hr d' (List.mem_cons_of_mem _ hd')
    by_cases hc : d.Fragment k false b.chksum ∧ 0 < k
    · obtain ⟨k, rfl⟩ : ∃ k', k = k' + 1 := ⟨k - 1, by omega⟩
      obtain ⟨hbuf, hidx, hch⟩ := process_of_next hc.1 hc.2 hb rfl
      obtain ⟨h1, h2⟩ := feed_chain hrest (k := k) hidx
      obtain ⟨hi, hl, hcs⟩ := hc.1
      have hfit : lfnPartLen * (k + 1) ≤ b.buf.length :=
        le_trans (Nat.mul_le_mul_left lfnPartLen (by omega : k + 1 ≤ b.index)) b.fits
      have hcont : continuesGroup b.chksum (k + 1) (d :: rest) = continuesGroup b.chksum k rest := by
        simp [continuesGroup, hi, hcs, bne_eq_false_iff_eq.mp hl]
      rw [hcont, feed_cons, ← hch]
      refine ⟨h1, fun hg => ⟨(h2 hg).1, ?_⟩⟩
      rw [(h2 hg).2, hbuf, drop_copyPart_succ d hfit, List.reverse_cons, List.flatMap_append,
        List.flatMap_singleton, List.append_assoc]
    · have hcont : continuesGroup b.chksum k (d :: rest) = false := by
        cases k with
        | zero => rfl
        | succ k =>
          refine Bool.eq_false_iff.mpr fun hg => hc ⟨?_, k.succ_pos⟩
          simp only [continuesGroup, Bool.and_eq_true, beq_iff_eq] at hg
          exact ⟨hg.1.1.1, by simp [hg.1.1.2], hg.1.2⟩
      rw [feed_cons, process_eq_clear (hr d (List.mem_cons_self _ _)) (by rwa [hb, Nat.add_sub_cancel]),
        feed_index_zero hrest (index_clear b), hcont]
      simp

theorem toVec_validateChksum (b : LongNameBuilder) (s : Mathlib.Vector UInt8 11) :
    (b.validateChksum s).toVec = if b.index = 1 ∧ b.chksum = lfnChecksum s then truncate b.buf else [] := by
  unfold validateChksum
  by_cases hs : lfnChecksum s = b.chksum
  · simp [hs, toVec]
  · simp [hs, Ne.symm hs, toVec, clear]

end LongNameBuilder

/-! ## The assembled name -/

/-- Over any fragments, the source's builder from `new` never slices past its buffer, and ends as the model's; and
`validate_chksum` and `to_vec` then give the long name the documentation describes: the units of the group opened
by the last opening fragment, when the fragments after it are exactly the rest of the group and its checksum is the
short name's, and nothing otherwise. The units are cut by `truncate`, which drops exactly the `0` and `0xFFFF`
units at the end: any units that do not end with one of them, followed by any run of them, come back as they
were. -/
theorem longName_assembly (ds : List DirLfnEntryData) (s : Mathlib.Vector UInt8 11) :
    ds.foldlM RawBuilder.process RawBuilder.new = .ok (LongNameBuilder.new.feed ds).toRaw ∧
      ((LongNameBuilder.new.feed ds).validateChksum s).toVec = specLongName ds s ∧
      ∀ us p : List UInt16, (∀ u ∈ p, u = 0xFFFF ∨ u = 0) → (∀ u ∈ us.getLast?, u ≠ 0xFFFF ∧ u ≠ 0) →
        LongNameBuilder.truncate (us ++ p) = us := by
  refine ⟨foldlM_process_toRaw ds LongNameBuilder.new, ?_, fun _ _ => LongNameBuilder.truncate_append⟩
  rw [LongNameBuilder.toVec_validateChksum, specLongName]
  cases ho : lastOpening ds with
  | none =>
    rw [LongNameBuilder.feed_index_zero (lastOpening_none ho) rfl]
    simp
  | some p =>
    obtain ⟨top, rest⟩ := p
    obtain ⟨pre, rfl, htop, hrest⟩ := lastOpening_some ho
    dsimp only
    simp only [opensGroup, Bool.and_eq_true, bne_iff_ne, ne_eq] at htop
    have hpos : 0 < (top.order &&& 0x1F).toNat :=
      Nat.pos_of_ne_zero fun h => htop.2 (UInt8.toNat.inj (by rw [h]; rfl))
    obtain ⟨n, hn⟩ : ∃ n, (top.order &&& 0x1F).toNat = n + 1 := ⟨_, (Nat.succ_pred_eq_of_pos hpos).symm⟩
    have hlast : top.Fragment (n + 1) true top.checksum := ⟨hn, by simpa using htop.1, rfl⟩
    obtain ⟨hbuf, hidx, hch⟩ := LongNameBuilder.process_of_last hlast n.succ_pos (LongNameBuilder.new.feed pre)
    obtain ⟨h1, h2⟩ := LongNameBuilder.feed_chain hrest hidx
    rw [hch] at h1 h2
    rw [LongNameBuilder.feed_append, LongNameBuilder.feed_cons, hn, Nat.add_sub_cancel]
    by_cases hg : continuesGroup top.checksum n rest
    · obtain ⟨hc, hb⟩ := h2 hg
      rw [hb, hbuf, LongNameBuilder.drop_copyPart_succ top (by rw [length_resize, Nat.mul_comm]),
        List.drop_eq_nil_of_le (by rw [length_resize, Nat.mul_comm]), List.append_nil, hc]
      simp [h1.mpr hg, hg]
    · simp [mt h1.mp hg, hg]

end FatDir
