import FatDir.Entry

/-!
# Long names: the LFN checksum and the name builder

`lfn_checksum` folds the eleven bytes of a short name into one byte, which every fragment of the long name
carries. `LongNameBuilder` collects the fragments that stand before a short entry: a fragment with the LAST flag
opens a group of `index` fragments, each later one must carry the next lower index and the same checksum, and
anything else clears the builder. The buffer always has room for the fragments still to come (the field `fits`),
which is why the copies of `process` stay inside it.

* A group `N | LAST, N - 1, ..., 1` under one checksum leaves the builder at index 1 holding the fragments' units in
  index order, whatever state it started from (`feed_group`).
* `truncate` drops the `0` terminator and the `0xFFFF` padding after a name (`truncate_append`).
* Builders that agree on buffer and index, and on the checksum while a group is under way, give the same long name
  from then on (`Alike.process`, `Alike.toVec_validateChksum`).
-/

namespace FatDir

/-- `lfn_checksum`: rotate right by one bit and add the next byte, over the eleven bytes of a short name. -/
def lfnChecksum (shortName : Mathlib.Vector UInt8 11) : UInt8 :=
  shortName.toList.foldl (fun chksum b => UInt8.ofNat ((chksum.toNat % 2) * 128 + chksum.toNat / 2 + b.toNat)) 0

/-- The thirteen name units of a fragment, `name_0`, `name_1` and `name_2` in a row. -/
def DirLfnEntryData.units (d : DirLfnEntryData) : List UInt16 := d.name0.toList ++ d.name1.toList ++ d.name2.toList

@[simp] theorem DirLfnEntryData.length_units (d : DirLfnEntryData) : d.units.length = lfnPartLen := by
  simp [DirLfnEntryData.units, lfnPartLen]

/-- What a fragment says about itself: its index (`order & 0x1F`), whether it has the LAST flag, its checksum. -/
def DirLfnEntryData.Fragment (d : DirLfnEntryData) (i : Nat) (last : Bool) (c : UInt8) : Prop :=
  (d.order &&& 0x1F).toNat = i ∧ ((d.order &&& lfnEntryLastFlag) != 0) = last ∧ d.checksum = c

/-! ## Buffer edits -/

/-- `Vec::resize(n, 0)`. -/
def resize (buf : List UInt16) (n : Nat) : List UInt16 := buf.take n ++ List.replicate (n - buf.length) 0

@[simp] theorem length_resize (buf : List UInt16) (n : Nat) : (resize buf n).length = n := by
  simp only [resize, List.length_append, List.length_take, List.length_replicate]
  omega

/-- The three `copy_from_slice`s of `process`: the units of fragment `index` go to `buf[13 * (index - 1) ..]`. -/
def copyPart (buf : List UInt16) (index : Nat) (d : DirLfnEntryData) : List UInt16 :=
  buf.take (lfnPartLen * (index - 1)) ++ d.units ++ buf.drop (lfnPartLen * (index - 1) + lfnPartLen)

section CopyPart

variable {buf : List UInt16} {index : Nat} (d : DirLfnEntryData)

/-- Inside the buffer (`13 * index ≤ len`, the bound the slices of `process` need) a copy keeps its length. -/
theorem length_copyPart (h0 : 0 < index) (h : lfnPartLen * index ≤ buf.length) :
    (copyPart buf index d).length = buf.length := by
  simp only [copyPart, List.length_append, List.length_take, List.length_drop, DirLfnEntryData.length_units,
    lfnPartLen] at h ⊢
  omega

theorem drop_copyPart (h0 : 0 < index) (h : lfnPartLen * index ≤ buf.length) :
    (copyPart buf index d).drop (lfnPartLen * (index - 1)) = d.units ++ buf.drop (lfnPartLen * index) := by
  have hp : lfnPartLen * (index - 1) + lfnPartLen = lfnPartLen * index := by simp only [lfnPartLen]; omega
  rw [copyPart, List.append_assoc, List.drop_left' (by simp only [List.length_take, lfnPartLen] at h ⊢; omega), hp]

end CopyPart

/-! ## The builder -/

/-- `LongNameBuilder`: the units collected so far, the checksum of the group and the index of the fragment last
taken (`0`: no group under way). The index is a `u8` of the source that never exceeds `0x1F`. -/
structure LongNameBuilder where
  buf : List UInt16
  chksum : UInt8
  index : Nat
  fits : lfnPartLen * index ≤ buf.length

namespace LongNameBuilder

/-- `LongNameBuilder::new`. -/
def new : LongNameBuilder := ⟨[], 0, 0, Nat.le_of_eq (Nat.mul_zero _)⟩

/-- `clear`: empty the buffer and drop the index; the checksum stays. -/
def clear (b : LongNameBuilder) : LongNameBuilder := ⟨[], b.chksum, 0, Nat.le_of_eq (Nat.mul_zero _)⟩

/-- `truncate`: drop the trailing `0` and `0xFFFF` units. -/
def truncate (buf : List UInt16) : List UInt16 := (buf.reverse.dropWhile fun u => u == 0xFFFF || u == 0).reverse

/-- `to_vec`: the name if the group reached index 1, else nothing. -/
def toVec (b : LongNameBuilder) : List UInt16 := if b.index = 1 then truncate b.buf else []

theorem fits_copyPart_resize (buf : List UInt16) (d : DirLfnEntryData) {index : Nat} (h0 : 0 < index) :
    lfnPartLen * index ≤ (copyPart (resize buf (index * lfnPartLen)) index d).length := by
  rw [length_copyPart d h0 (by rw [length_resize, Nat.mul_comm]), length_resize, Nat.mul_comm]

theorem fits_copyPart_next (b : LongNameBuilder) (d : DirLfnEntryData) {index : Nat} (h0 : 0 < index)
    (h : index = b.index - 1) : lfnPartLen * (b.index - 1) ≤ (copyPart b.buf index d).length := by
  have hb := b.fits
  rw [length_copyPart d h0 (by simp only [lfnPartLen] at hb ⊢; omega)]
  simp only [lfnPartLen] at hb ⊢
  omega

/-- `process`: take one fragment. A LAST fragment opens a group; a later one must carry the next lower index and
the group's checksum. -/
def process (b : LongNameBuilder) (data : DirLfnEntryData) : LongNameBuilder :=
  let index := (data.order &&& 0x1F).toNat
  if h0 : index = 0 then b.clear
  else if (data.order &&& lfnEntryLastFlag) != 0 then
    ⟨copyPart (resize b.buf (index * lfnPartLen)) index data, data.checksum, index,
      fits_copyPart_resize b.buf data (Nat.pos_of_ne_zero h0)⟩
  else if h : b.index = 0 ∨ index ≠ b.index - 1 ∨ data.checksum ≠ b.chksum then b.clear
  else
    ⟨copyPart b.buf index data, b.chksum, b.index - 1,
      fits_copyPart_next b data (Nat.pos_of_ne_zero h0) (by simp only [not_or, not_not] at h; exact h.2.1)⟩

/-- `validate_chksum`: clear the builder unless its checksum is the short name's. -/
def validateChksum (b : LongNameBuilder) (shortName : Mathlib.Vector UInt8 11) : LongNameBuilder :=
  if lfnChecksum shortName != b.chksum then b.clear else b

/-- The builder after the fragments `ds`, taken in stream order. -/
def feed (b : LongNameBuilder) (ds : List DirLfnEntryData) : LongNameBuilder := ds.foldl process b

@[simp] theorem feed_nil (b : LongNameBuilder) : b.feed [] = b := rfl

@[simp] theorem feed_cons (b : LongNameBuilder) (d : DirLfnEntryData) (ds : List DirLfnEntryData) :
    b.feed (d :: ds) = (b.process d).feed ds := rfl

theorem validateChksum_of_eq {b : LongNameBuilder} {s : Mathlib.Vector UInt8 11} (h : lfnChecksum s = b.chksum) :
    b.validateChksum s = b := by
  simp [validateChksum, h]

theorem toVec_of_index {b : LongNameBuilder} (h : b.index = 1) : b.toVec = truncate b.buf := if_pos h

/-! ## Taking a group -/

section Group

variable {d : DirLfnEntryData} {c : UInt8}

theorem process_of_last {n : Nat} (hd : d.Fragment n true c) (hn : 0 < n) (b : LongNameBuilder) :
    (b.process d).buf = copyPart (resize b.buf (n * lfnPartLen)) n d ∧ (b.process d).index = n ∧
      (b.process d).chksum = c := by
  obtain ⟨hi, hl, hc⟩ := hd
  simp only [process, hi, hl, hc, Nat.pos_iff_ne_zero.mp hn, dite_false, if_true, and_self]

theorem process_of_next {i : Nat} (hd : d.Fragment i false c) (hi : 0 < i) {b : LongNameBuilder}
    (hb : b.index = i + 1) (hc : b.chksum = c) :
    (b.process d).buf = copyPart b.buf i d ∧ (b.process d).index = i ∧ (b.process d).chksum = c := by
  obtain ⟨hdi, hl, hdc⟩ := hd
  simp [process, hdi, hl, hdc, hb, hc, Nat.pos_iff_ne_zero.mp hi]

/-- The fragments `g k, g (k - 1), ..., g 1`: the order in which the fragments of a group below its first are
written. -/
def descending {α : Type} (g : Nat → α) : Nat → List α
  | 0 => []
  | k + 1 => g (k + 1) :: descending g k

theorem descending_congr {α : Type} {g g' : Nat → α} :
    ∀ {k : Nat}, (∀ j, 0 < j → j ≤ k → g j = g' j) → descending g k = descending g' k
  | 0, _ => rfl
  | k + 1, h => by
    rw [descending, descending, h (k + 1) k.succ_pos le_rfl, descending_congr fun j hj hjk => h j hj (by omega)]

/-- Writing `f 1, ..., f k` is writing the fragments `k, ..., 1` of `j ↦ f (k + 1 - j)`. -/
theorem map_range_eq_descending {α : Type} (f : Nat → α) :
    ∀ k, (List.range k).map (fun c => f (c + 1)) = descending (fun j => f (k + 1 - j)) k
  | 0 => rfl
  | k + 1 => by
    rw [List.range_succ_eq_map, List.map_cons, List.map_map, descending]
    have h := map_range_eq_descending (fun c => f (c + 1)) k
    simp only [Function.comp_def, Nat.succ_eq_add_one] at h ⊢
    rw [h]
    congr 1
    · rw [show k + 1 + 1 - (k + 1) = 0 + 1 by omega]
    · exact descending_congr fun j _ hj => by congr 1; omega

theorem reverse_descending {α : Type} (g : Nat → α) :
    ∀ k, (descending g k).reverse = (List.range k).map (fun c => g (c + 1))
  | 0 => rfl
  | k + 1 => by rw [descending, List.reverse_cons, reverse_descending g k, List.range_succ, List.map_append]; rfl

/-- Fragments `k, ..., 1` after a builder at index `k + 1` overwrite the first `13 * k` units of its buffer with
their own, in index order. -/
theorem feed_descending {g : Nat → DirLfnEntryData} :
    ∀ {k : Nat}, (∀ i, 0 < i → i ≤ k → (g i).Fragment i false c) → ∀ (b : LongNameBuilder), b.index = k + 1 →
      b.chksum = c → (b.feed (descending g k)).index = 1 ∧ (b.feed (descending g k)).chksum = c ∧
        (b.feed (descending g k)).buf =
          (descending g k).reverse.flatMap DirLfnEntryData.units ++ b.buf.drop (lfnPartLen * k)
  | 0, _, b, hb, hc => by simp [descending, hb, hc]
  | k + 1, hg, b, hb, hc => by
    obtain ⟨hbuf, hidx, hch⟩ := process_of_next (hg (k + 1) k.succ_pos le_rfl) k.succ_pos hb hc
    obtain ⟨h1, h2, h3⟩ := feed_descending (fun i hi hik => hg i hi (by omega)) _ hidx hch
    have hfit : lfnPartLen * (k + 1) ≤ b.buf.length := by
      have := b.fits
      rw [hb] at this
      simp only [lfnPartLen] at this ⊢
      omega
    have hdrop := drop_copyPart (g (k + 1)) (show 0 < k + 1 from k.succ_pos) hfit
    rw [Nat.add_sub_cancel] at hdrop
    refine ⟨h1, h2, ?_⟩
    rw [descending, feed_cons, h3, hbuf, hdrop, List.reverse_cons, List.flatMap_append, List.flatMap_singleton, List.append_assoc]

/-- A whole group `N | LAST, N - 1, ..., 1` under one checksum leaves any builder at index 1 with the checksum of
the group and the units of its fragments in index order. -/
theorem feed_group {top : DirLfnEntryData} {g : Nat → DirLfnEntryData} {n : Nat} (htop : top.Fragment n true c)
    (hn : 0 < n) (hg : ∀ i, 0 < i → i < n → (g i).Fragment i false c) (b : LongNameBuilder) :
    (b.feed (top :: descending g (n - 1))).index = 1 ∧ (b.feed (top :: descending g (n - 1))).chksum = c ∧
      (b.feed (top :: descending g (n - 1))).buf =
        (descending g (n - 1)).reverse.flatMap DirLfnEntryData.units ++ top.units := by
  obtain ⟨hbuf, hidx, hch⟩ := process_of_last htop hn b
  obtain ⟨h1, h2, h3⟩ :=
    feed_descending (k := n - 1) (fun i hi hin => hg i hi (by omega)) (b.process top) (by omega) hch
  have hlen : lfnPartLen * n ≤ (resize b.buf (n * lfnPartLen)).length := by rw [length_resize, Nat.mul_comm]
  refine ⟨h1, h2, ?_⟩
  rw [feed_cons, h3, hbuf, drop_copyPart _ hn hlen, List.drop_eq_nil_of_le (by rw [length_resize, Nat.mul_comm]),
    List.append_nil]

end Group

/-! ## Builders that act alike -/

/-- Two builders that act alike from here on: the same buffer and index, and the same checksum while a group is
under way. A cleared builder keeps a stale checksum where a new one has 0, and nothing reads it before the next
LAST fragment sets it. -/
def Alike (b b' : LongNameBuilder) : Prop :=
  b.buf = b'.buf ∧ b.index = b'.index ∧ (b.index ≠ 0 → b.chksum = b'.chksum)

theorem alike_refl (b : LongNameBuilder) : b.Alike b := ⟨rfl, rfl, fun _ => rfl⟩

theorem clear_alike_new (b : LongNameBuilder) : b.clear.Alike new := ⟨rfl, rfl, fun h => absurd rfl h⟩

theorem eq_of_alike {b b' : LongNameBuilder} (h : b.Alike b') (hi : b.index ≠ 0) : b = b' := by
  obtain ⟨buf, chksum, index, fits⟩ := b
  obtain ⟨buf', chksum', index', fits'⟩ := b'
  obtain ⟨h1, h2, h3⟩ := h
  simp only at h1 h2 h3 hi
  subst h1 h2
  rw [h3 hi]

theorem Alike.process {b b' : LongNameBuilder} (h : b.Alike b') (d : DirLfnEntryData) :
    (b.process d).Alike (b'.process d) := by
  by_cases hi : b.index = 0
  · obtain ⟨hbuf, hidx, -⟩ := h
    have hi' : b'.index = 0 := hidx ▸ hi
    simp only [LongNameBuilder.process, hbuf, hi, hi', true_or, dite_true]
    split_ifs
    all_goals first | exact ⟨rfl, rfl, fun _ => rfl⟩ | exact ⟨rfl, rfl, fun h => absurd rfl h⟩
  · rw [eq_of_alike h hi]
    exact alike_refl _

theorem Alike.toVec_validateChksum {b b' : LongNameBuilder} (h : b.Alike b') (s : Mathlib.Vector UInt8 11) :
    (b.validateChksum s).toVec = (b'.validateChksum s).toVec := by
  by_cases hi : b.index = 0
  · have hi' : b'.index = 0 := h.2.1 ▸ hi
    have hv : ∀ c : LongNameBuilder, c.index = 0 → (c.validateChksum s).toVec = [] := fun c hc => by
      unfold validateChksum
      split_ifs <;> simp [toVec, clear, hc]
    rw [hv b hi, hv b' hi']
  · rw [eq_of_alike h hi]

theorem feed_append (b : LongNameBuilder) (xs ys : List DirLfnEntryData) :
    b.feed (xs ++ ys) = (b.feed xs).feed ys := List.foldl_append _ _ _ _

/-! ## Truncation -/

/-- `truncate` takes off padding made of `0` and `0xFFFF` units, down to a name that does not end in one. -/
theorem truncate_append {us p : List UInt16} (hp : ∀ u ∈ p, u = 0xFFFF ∨ u = 0)
    (hu : ∀ u ∈ us.getLast?, u ≠ 0xFFFF ∧ u ≠ 0) : truncate (us ++ p) = us := by
  have hpad : (p.reverse.dropWhile fun u => u == 0xFFFF || u == 0) = [] :=
    List.dropWhile_eq_nil_iff.mpr fun u hu => by simpa using hp u (List.mem_reverse.mp hu)
  rw [truncate, List.reverse_append, List.dropWhile_append, hpad, List.isEmpty_nil, if_pos rfl]
  cases hr : us.reverse with
  | nil => simpa using hr
  | cons u rest =>
    have hlast : u ∈ us.getLast? := by rw [← List.head?_reverse, hr]; rfl
    obtain ⟨h1, h2⟩ := hu u hlast
    rw [List.dropWhile_cons_of_neg (by simpa using And.intro h1 h2), ← hr, List.reverse_reverse]

end LongNameBuilder

end FatDir
