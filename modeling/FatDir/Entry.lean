import FatDir.Bytes

/-!
# Directory slots: the raw entry codec

A directory is a stream of 32-byte slots (`Slot`). `DirEntryData.deserialize` reads one: the attribute byte at
offset 11 chooses between a file entry (`DirFileEntryData`) and an LFN fragment (`DirLfnEntryData`), whose order
byte and first five name units are re-read from the eleven name bytes the file shape would have kept. The
serializers write the fields back in the same order.

* `deserialize` reads exactly 32 bytes whenever 32 are left (`reads_deserialize`), so every slot decodes
  (`Slot.decode`).
* Encoding a decoded slot gives the slot back with bits `0x40` and `0x80` of its attribute byte cleared, which
  `from_bits_truncate` drops (`serialize_decode`).
* Decoding an encoded entry gives the entry back whenever its attributes select its own shape
  (`DirEntryData.toSlot_decode`).
-/

namespace FatDir

/-- `LFN_PART_LEN`. -/
def lfnPartLen : Nat := 13

/-- `DIR_ENTRY_SIZE`. -/
def dirEntrySize : Nat := 32

/-- `DIR_ENTRY_FREE_FLAG`. -/
def dirEntryFreeFlag : UInt8 := 0xE5

/-- `LFN_ENTRY_LAST_FLAG`. -/
def lfnEntryLastFlag : UInt8 := 0x40

/-- A 32-byte directory slot. -/
abbrev Slot := Mathlib.Vector UInt8 32

/-! ## The two shapes of a slot -/

/-- `DirFileEntryData`: the slot of a file or a directory. -/
structure DirFileEntryData where
  name : Mathlib.Vector UInt8 11
  attrs : FileAttributes
  reserved0 : UInt8
  createTime0 : UInt8
  createTime1 : UInt16
  createDate : UInt16
  accessDate : UInt16
  firstClusterHi : UInt16
  modifyTime : UInt16
  modifyDate : UInt16
  firstClusterLo : UInt16
  size : UInt32
  deriving DecidableEq

/-- `#[derive(Default)]`: every field zero. -/
instance : Inhabited DirFileEntryData :=
  ⟨⟨Mathlib.Vector.replicate 11 0, default, 0, 0, 0, 0, 0, 0, 0, 0, 0, 0⟩⟩

/-- `DirLfnEntryData`: one fragment of a long name. -/
structure DirLfnEntryData where
  order : UInt8
  name0 : Mathlib.Vector UInt16 5
  attrs : FileAttributes
  entryType : UInt8
  checksum : UInt8
  name1 : Mathlib.Vector UInt16 6
  reserved0 : UInt16
  name2 : Mathlib.Vector UInt16 2
  deriving DecidableEq, Inhabited

/-- `DirEntryData`. -/
inductive DirEntryData
  | file (data : DirFileEntryData)
  | lfn (data : DirLfnEntryData)
  deriving DecidableEq

namespace DirFileEntryData

def serialize (d : DirFileEntryData) : List UInt8 :=
  d.name.toList ++ [d.attrs.bits, d.reserved0, d.createTime0] ++ le16 d.createTime1 ++ le16 d.createDate ++
    le16 d.accessDate ++ le16 d.firstClusterHi ++ le16 d.modifyTime ++ le16 d.modifyDate ++
    le16 d.firstClusterLo ++ le32 d.size

def isFree (d : DirFileEntryData) : Bool := d.name.head == dirEntryFreeFlag

def isEnd (d : DirFileEntryData) : Bool := d.name.head == 0

/-- `first_cluster`: `hi << 16 | lo`, with `0` meaning no cluster. -/
def firstCluster (d : DirFileEntryData) : Option Nat :=
  let n := d.firstClusterHi.toNat * 65536 + d.firstClusterLo.toNat
  if n = 0 then none else some n

def isDir (d : DirFileEntryData) : Bool := d.attrs.contains .directory

def isFile (d : DirFileEntryData) : Bool := !d.isDir

end DirFileEntryData

namespace DirLfnEntryData

def serialize (d : DirLfnEntryData) : List UInt8 :=
  [d.order] ++ d.name0.toList.flatMap le16 ++ [d.attrs.bits, d.entryType, d.checksum] ++
    d.name1.toList.flatMap le16 ++ le16 d.reserved0 ++ d.name2.toList.flatMap le16

def isFree (d : DirLfnEntryData) : Bool := d.order == dirEntryFreeFlag

def isEnd (d : DirLfnEntryData) : Bool := d.order == 0

/-- The first eleven bytes of the fragment: where the file shape keeps its name. -/
def nameBytes (d : DirLfnEntryData) : Mathlib.Vector UInt8 11 :=
  ⟨d.order :: d.name0.toList.flatMap le16, by rw [List.length_cons, length_flatMap_le16, Mathlib.Vector.toList_length]⟩

end DirLfnEntryData

/-- The order byte and `name_0`, re-read from the eleven name bytes through a `Cursor`. -/
def readLfnHead : Reader (UInt8 × Mathlib.Vector UInt16 5) := do
  let order ← readU8
  let name0 ← readArray readU16 5
  return (order, name0)

/-- The rest of an LFN fragment, after its attribute byte. -/
def readLfnTail (name : Mathlib.Vector UInt8 11) (attrs : FileAttributes) : Reader DirLfnEntryData := do
  let head ← StateT.lift (readLfnHead.run' name.toList)
  let entryType ← readU8
  let checksum ← readU8
  let name1 ← readArray readU16 6
  let reserved0 ← readU16
  let name2 ← readArray readU16 2
  return ⟨head.1, head.2, attrs, entryType, checksum, name1, reserved0, name2⟩

/-- The rest of a file entry, after its attribute byte. -/
def readFileTail (name : Mathlib.Vector UInt8 11) (attrs : FileAttributes) : Reader DirFileEntryData := do
  let reserved0 ← readU8
  let createTime0 ← readU8
  let createTime1 ← readU16
  let createDate ← readU16
  let accessDate ← readU16
  let firstClusterHi ← readU16
  let modifyTime ← readU16
  let modifyDate ← readU16
  let firstClusterLo ← readU16
  let size ← readU32
  return ⟨name, attrs, reserved0, createTime0, createTime1, createDate, accessDate, firstClusterHi, modifyTime,
    modifyDate, firstClusterLo, size⟩

namespace DirEntryData

def serialize : DirEntryData → List UInt8
  | file d => d.serialize
  | lfn d => d.serialize

/-- `deserialize`: the attribute byte decides the shape, `attrs & LFN == LFN` meaning a fragment. -/
def deserialize : Reader DirEntryData := do
  let name ← readArray readU8 11
  let attrs := FileAttributes.fromBitsTruncate (← readU8)
  if attrs.contains .lfn then
    return lfn (← readLfnTail name attrs)
  else
    return file (← readFileTail name attrs)

def isFree : DirEntryData → Bool
  | file d => d.isFree
  | lfn d => d.isFree

def isEnd : DirEntryData → Bool
  | file d => d.isEnd
  | lfn d => d.isEnd

/-- The shapes `deserialize` produces: a file entry lacks one of the four LFN bits, a fragment has them all. -/
def Shaped : DirEntryData → Prop
  | file d => d.attrs.contains .lfn = false
  | lfn d => d.attrs.contains .lfn = true

end DirEntryData

/-! ## Every slot decodes -/

theorem reads_readLfnHead : Reads readLfnHead 11 :=
  reads_readU8.bind fun _ => (reads_readArray reads_readU16 5).bind fun _ => reads_pure _

theorem reads_readLfnTail (name : Mathlib.Vector UInt8 11) (attrs : FileAttributes) :
    Reads (readLfnTail name attrs) 20 := by
  obtain ⟨h, hh⟩ := reads_readLfnHead name.toList (by simp)
  have hh' : readLfnHead.run' name.toList = some h := by
    show Prod.fst <$> readLfnHead.run name.toList = some h
    rw [hh]
    rfl
  exact (Reads.lift hh').bind fun _ => reads_readU8.bind fun _ => reads_readU8.bind
    fun _ => (reads_readArray reads_readU16 6).bind fun _ => reads_readU16.bind fun _ =>
      (reads_readArray reads_readU16 2).bind fun _ => reads_pure _

theorem reads_readFileTail (name : Mathlib.Vector UInt8 11) (attrs : FileAttributes) :
    Reads (readFileTail name attrs) 20 :=
  reads_readU8.bind fun _ => reads_readU8.bind fun _ => reads_readU16.bind fun _ => reads_readU16.bind fun _ =>
    reads_readU16.bind fun _ => reads_readU16.bind fun _ => reads_readU16.bind fun _ => reads_readU16.bind fun _ =>
      reads_readU16.bind fun _ => reads_readU32.bind fun _ => reads_pure _

theorem reads_deserialize : Reads DirEntryData.deserialize 32 :=
  (reads_readArray reads_readU8 11).bind fun name => reads_readU8.bind fun _ =>
    Reads.ite ((reads_readLfnTail name _).bind fun _ => reads_pure _)
      ((reads_readFileTail name _).bind fun _ => reads_pure _)

theorem deserialize_isSome (s : Slot) : (DirEntryData.deserialize.run s.toList).isSome := by
  obtain ⟨e, he⟩ := reads_deserialize s.toList (by simp)
  simp [he]

/-- The entry a slot decodes to: `deserialize` never runs short on a whole slot. -/
def Slot.decode (s : Slot) : DirEntryData :=
  ((DirEntryData.deserialize.run s.toList).get (deserialize_isSome s)).1

theorem Slot.deserialize_run (s : Slot) : DirEntryData.deserialize.run s.toList = some (s.decode, []) := by
  obtain ⟨e, he⟩ := reads_deserialize s.toList (by simp)
  simp [Slot.decode, he]

/-! ## Decoding what was encoded -/

theorem DirFileEntryData.length_serialize (d : DirFileEntryData) : d.serialize.length = 32 := by
  simp [DirFileEntryData.serialize]

theorem DirLfnEntryData.length_serialize (d : DirLfnEntryData) : d.serialize.length = 32 := by
  simp [DirLfnEntryData.serialize, length_flatMap_le16, -List.length_flatMap]

theorem DirEntryData.length_serialize : ∀ e : DirEntryData, e.serialize.length = 32
  | .file d => d.length_serialize
  | .lfn d => d.length_serialize

/-- The slot `serialize` writes. -/
def DirEntryData.toSlot (e : DirEntryData) : Slot := ⟨e.serialize, e.length_serialize⟩

theorem readLfnHead_nameBytes (d : DirLfnEntryData) :
    readLfnHead.run d.nameBytes.toList = some ((d.order, d.name0), []) := by
  have h := readArray_write readU16_le16 d.name0 []
  rw [List.append_nil] at h
  simp [readLfnHead, DirLfnEntryData.nameBytes, h]

theorem readFileTail_run (d : DirFileEntryData) (rest : List UInt8) :
    (readFileTail d.name d.attrs).run (d.reserved0 :: d.createTime0 :: (le16 d.createTime1 ++ (le16 d.createDate ++
      (le16 d.accessDate ++ (le16 d.firstClusterHi ++ (le16 d.modifyTime ++ (le16 d.modifyDate ++
      (le16 d.firstClusterLo ++ (le32 d.size ++ rest))))))))) = some (d, rest) := by
  unfold readFileTail
  rw [run_bind_of_some (readU8_cons _ _), run_bind_of_some (readU8_cons _ _), run_bind_of_some (readU16_le16 _ _),
    run_bind_of_some (readU16_le16 _ _), run_bind_of_some (readU16_le16 _ _), run_bind_of_some (readU16_le16 _ _),
    run_bind_of_some (readU16_le16 _ _), run_bind_of_some (readU16_le16 _ _), run_bind_of_some (readU16_le16 _ _),
    run_bind_of_some (readU32_le32 _ _)]
  rfl

theorem readLfnTail_run (d : DirLfnEntryData) (rest : List UInt8) :
    (readLfnTail d.nameBytes d.attrs).run (d.entryType :: d.checksum :: (d.name1.toList.flatMap le16 ++
      (le16 d.reserved0 ++ (d.name2.toList.flatMap le16 ++ rest)))) = some (d, rest) := by
  have hh : (StateT.lift (readLfnHead.run' d.nameBytes.toList) : Reader _).run (d.entryType :: d.checksum ::
      (d.name1.toList.flatMap le16 ++ (le16 d.reserved0 ++ (d.name2.toList.flatMap le16 ++ rest)))) =
      some ((d.order, d.name0), d.entryType :: d.checksum ::
        (d.name1.toList.flatMap le16 ++ (le16 d.reserved0 ++ (d.name2.toList.flatMap le16 ++ rest)))) := by
    simp [StateT.run'_eq, readLfnHead_nameBytes]
  unfold readLfnTail
  rw [run_bind_of_some hh, run_bind_of_some (readU8_cons _ _), run_bind_of_some (readU8_cons _ _),
    run_bind_of_some (readArray_write readU16_le16 _ _), run_bind_of_some (readU16_le16 _ _),
    run_bind_of_some (readArray_write readU16_le16 _ _)]
  rfl

theorem deserialize_file (d : DirFileEntryData) (h : d.attrs.contains .lfn = false) (rest : List UInt8) :
    DirEntryData.deserialize.run (d.serialize ++ rest) = some (.file d, rest) := by
  simp only [DirFileEntryData.serialize, List.append_assoc, List.cons_append, List.singleton_append, List.nil_append]
  rw [DirEntryData.deserialize, run_bind_of_some (readBytes_write _ _), run_bind_of_some (readU8_cons _ _)]
  simp only [FileAttributes.fromBitsTruncate_self, h, Bool.false_eq_true, if_false]
  rw [run_bind_of_some (readFileTail_run d rest)]
  rfl

theorem deserialize_lfn (d : DirLfnEntryData) (h : d.attrs.contains .lfn = true) (rest : List UInt8) :
    DirEntryData.deserialize.run (d.serialize ++ rest) = some (.lfn d, rest) := by
  have e : d.serialize ++ rest = d.nameBytes.toList ++ d.attrs.bits :: d.entryType :: d.checksum ::
      (d.name1.toList.flatMap le16 ++ (le16 d.reserved0 ++ (d.name2.toList.flatMap le16 ++ rest))) := by
    simp only [DirLfnEntryData.serialize, DirLfnEntryData.nameBytes, Mathlib.Vector.toList_mk, List.append_assoc, List.cons_append,
      List.singleton_append, List.nil_append]
  rw [e, DirEntryData.deserialize, run_bind_of_some (readBytes_write _ _), run_bind_of_some (readU8_cons _ _)]
  simp only [FileAttributes.fromBitsTruncate_self, h, if_true]
  rw [run_bind_of_some (readLfnTail_run d rest)]
  rfl

theorem deserialize_serialize {e : DirEntryData} (h : e.Shaped) (rest : List UInt8) :
    DirEntryData.deserialize.run (e.serialize ++ rest) = some (e, rest) := by
  cases e with
  | file d => exact deserialize_file d h rest
  | lfn d => exact deserialize_lfn d h rest

@[simp] theorem DirEntryData.toSlot_toList (e : DirEntryData) : e.toSlot.toList = e.serialize := rfl

/-- `deserialize` reads an encoded entry back from its slot, when its attributes select its own shape. -/
theorem DirEntryData.run_toSlot {e : DirEntryData} (h : e.Shaped) :
    DirEntryData.deserialize.run e.toSlot.toList = some (e, []) := by
  rw [toSlot_toList, ← List.append_nil e.serialize]
  exact deserialize_serialize h []

/-- A slot decodes to what `deserialize` reads from its 32 bytes. -/
theorem Slot.decode_of_run {s : Slot} {e : DirEntryData} (h : DirEntryData.deserialize.run s.toList = some (e, [])) :
    s.decode = e :=
  (Prod.mk.inj (Option.some.inj ((Slot.deserialize_run s).symm.trans h))).1

/-- Decoding an encoded entry gives it back, when its attributes select its own shape: the slot decodes to what
`deserialize` reads from it, and that is the entry. -/
theorem DirEntryData.toSlot_decode {e : DirEntryData} (h : e.Shaped) : e.toSlot.decode = e :=
  Slot.decode_of_run (DirEntryData.run_toSlot h)

/-- `README.TXT`, an archive with both cluster halves, its times and its size set. -/
theorem toSlot_decode_readme :
    let e : DirEntryData := .file ⟨⟨[0x52, 0x45, 0x41, 0x44, 0x4D, 0x45, 0x20, 0x20, 0x54, 0x58, 0x54], rfl⟩,
      .archive, 0x18, 0x64, 0x6E5A, 0x5A21, 0x5A22, 0x0001, 0x6E5B, 0x5A23, 0x0005, 1234⟩
    e.Shaped ∧ e.toSlot.decode = e :=
  have h : (DirEntryData.file ⟨⟨[0x52, 0x45, 0x41, 0x44, 0x4D, 0x45, 0x20, 0x20, 0x54, 0x58, 0x54], rfl⟩,
      .archive, 0x18, 0x64, 0x6E5A, 0x5A21, 0x5A22, 0x0001, 0x6E5B, 0x5A23, 0x0005, 1234⟩).Shaped :=
    show FileAttributes.archive.contains .lfn = false by decide
  ⟨h, DirEntryData.toSlot_decode h⟩

/-! ## Encoding what was decoded -/

section Sound

variable {bs rest : List UInt8}

theorem readU8_sound {a : UInt8} (h : readU8.run bs = some (a, rest)) : bs = a :: rest := by
  cases bs <;> simp_all

theorem serialize_of_readFileTail {name : Mathlib.Vector UInt8 11} {attrs : FileAttributes} {d : DirFileEntryData}
    (h : (readFileTail name attrs).run bs = some (d, rest)) :
    ∃ post, bs = post ++ rest ∧ d.serialize = name.toList ++ attrs.bits :: post := by
  unfold readFileTail at h
  obtain ⟨r0, b1, h1, h⟩ := run_bind_eq_some h
  obtain ⟨t0, b2, h2, h⟩ := run_bind_eq_some h
  obtain ⟨t1, b3, h3, h⟩ := run_bind_eq_some h
  obtain ⟨cd, b4, h4, h⟩ := run_bind_eq_some h
  obtain ⟨ad, b5, h5, h⟩ := run_bind_eq_some h
  obtain ⟨hi, b6, h6, h⟩ := run_bind_eq_some h
  obtain ⟨mt, b7, h7, h⟩ := run_bind_eq_some h
  obtain ⟨md, b8, h8, h⟩ := run_bind_eq_some h
  obtain ⟨lo, b9, h9, h⟩ := run_bind_eq_some h
  obtain ⟨sz, b10, h10, h⟩ := run_bind_eq_some h
  cases run_pure_eq_some h
  refine ⟨r0 :: t0 :: (le16 t1 ++ le16 cd ++ le16 ad ++ le16 hi ++ le16 mt ++ le16 md ++ le16 lo ++ le32 sz), ?_,
    by simp [DirFileEntryData.serialize]⟩
  rw [readU8_sound h1, readU8_sound h2, ← le16_of_readU16 h3, ← le16_of_readU16 h4, ← le16_of_readU16 h5,
    ← le16_of_readU16 h6, ← le16_of_readU16 h7, ← le16_of_readU16 h8, ← le16_of_readU16 h9, ← le32_of_readU32 h10]
  simp

theorem lift_run_eq_some {α : Type} {x : Option α} {a : α} (h : (StateT.lift x : Reader α).run bs = some (a, rest)) :
    x = some a ∧ rest = bs := by
  cases x <;> simp_all [StateT.lift]

theorem nameBytes_of_readLfnHead {name : Mathlib.Vector UInt8 11} {hd : UInt8 × Mathlib.Vector UInt16 5}
    (h : readLfnHead.run' name.toList = some hd) : name.toList = hd.1 :: hd.2.toList.flatMap le16 := by
  obtain ⟨⟨⟨o', n0'⟩, r⟩, hr, rfl⟩ : ∃ p, readLfnHead.run name.toList = some p ∧ p.1 = hd := by
    rw [StateT.run'_eq] at h
    cases hx : readLfnHead.run name.toList <;> simp_all
  simp only [readLfnHead, StateT.run_bind, Option.bind_eq_bind, Option.bind_eq_some, StateT.run_pure,
    Option.pure_def, Option.some.injEq, Prod.mk.injEq] at hr
  obtain ⟨⟨o, b1⟩, h1, ⟨n0, b2⟩, h2, ⟨rfl, rfl⟩, rfl⟩ := hr
  dsimp only at *
  have e := write_of_readArray (fun _ _ _ => le16_of_readU16) h2
  have hl := congrArg List.length ((readU8_sound h1).trans (congrArg (o :: ·) e.symm))
  simp only [Mathlib.Vector.toList_length, List.length_cons, List.length_append, length_flatMap_le16] at hl
  rw [readU8_sound h1, ← e, List.eq_nil_of_length_eq_zero (by omega : b2.length = 0), List.append_nil]

theorem serialize_of_readLfnTail {name : Mathlib.Vector UInt8 11} {attrs : FileAttributes} {d : DirLfnEntryData}
    (h : (readLfnTail name attrs).run bs = some (d, rest)) :
    ∃ post, bs = post ++ rest ∧ d.serialize = name.toList ++ attrs.bits :: post := by
  unfold readLfnTail at h
  obtain ⟨hd, b0, h0, h⟩ := run_bind_eq_some h
  obtain ⟨ty, b1, h1, h⟩ := run_bind_eq_some h
  obtain ⟨ck, b2, h2, h⟩ := run_bind_eq_some h
  obtain ⟨n1, b3, h3, h⟩ := run_bind_eq_some h
  obtain ⟨res, b4, h4, h⟩ := run_bind_eq_some h
  obtain ⟨n2, b5, h5, h⟩ := run_bind_eq_some h
  cases run_pure_eq_some h
  obtain ⟨hh, rfl⟩ := lift_run_eq_some h0
  refine ⟨ty :: ck :: (n1.toList.flatMap le16 ++ le16 res ++ n2.toList.flatMap le16), ?_, ?_⟩
  · rw [readU8_sound h1, readU8_sound h2, ← write_of_readArray (fun _ _ _ => le16_of_readU16) h3,
      ← le16_of_readU16 h4, ← write_of_readArray (fun _ _ _ => le16_of_readU16) h5]
    simp
  · simp [DirLfnEntryData.serialize, nameBytes_of_readLfnHead hh]

/-- What a successful `deserialize` consumed is what `serialize` writes back, but for the two bits of the attribute
byte that `from_bits_truncate` clears. -/
theorem serialize_of_deserialize {e : DirEntryData} (h : DirEntryData.deserialize.run bs = some (e, rest)) :
    ∃ pre a post, pre.length = 11 ∧ bs = pre ++ a :: (post ++ rest) ∧ e.serialize = pre ++ (a &&& 0x3F) :: post := by
  unfold DirEntryData.deserialize at h
  obtain ⟨name, b1, h1, h⟩ := run_bind_eq_some h
  obtain ⟨a, b2, h2, h⟩ := run_bind_eq_some h
  refine ⟨name.toList, a, ?_⟩
  rw [← write_of_readBytes h1, readU8_sound h2]
  dsimp only at h
  split at h
  · obtain ⟨d, b3, h3, h⟩ := run_bind_eq_some h
    cases run_pure_eq_some h
    obtain ⟨post, rfl, hs⟩ := serialize_of_readLfnTail h3
    exact ⟨post, by simp, rfl, hs⟩
  · obtain ⟨d, b3, h3, h⟩ := run_bind_eq_some h
    cases run_pure_eq_some h
    obtain ⟨post, rfl, hs⟩ := serialize_of_readFileTail h3
    exact ⟨post, by simp, rfl, hs⟩

end Sound

/-- Encoding a decoded slot writes the slot back with bits `0x40` and `0x80` of its attribute byte cleared; so it
writes exactly the slot when the attribute byte is below `0x40`. -/
theorem serialize_decode (s : Slot) :
    s.decode.serialize = s.toList.set 11 (s.get 11 &&& 0x3F) ∧
      ((s.get 11).toNat < 64 → s.decode.serialize = s.toList) := by
  obtain ⟨pre, a, post, hl, hs, he⟩ := serialize_of_deserialize (Slot.deserialize_run s)
  rw [List.append_nil] at hs
  have ha : s.get 11 = a := by
    have h : s.toList[11]? = some a := by
      rw [hs, List.getElem?_append_right (by omega), hl, Nat.sub_self]
      simp
    rw [List.getElem?_eq_getElem (by simp)] at h
    exact Option.some.inj h
  have hset : s.toList.set 11 (a &&& 0x3F) = pre ++ (a &&& 0x3F) :: post := by
    rw [hs, List.set_append_right _ _ (by omega), hl, Nat.sub_self, List.set_cons_zero]
  rw [ha, he, hset]
  refine ⟨rfl, fun h => ?_⟩
  rw [hs]
  congr
  ext
  rw [UInt8.and_toNat, show (0x3F : UInt8).toNat = 2 ^ 6 - 1 from rfl, Nat.and_pow_two_sub_one_eq_mod]
  exact Nat.mod_eq_of_lt h

/-- A slot whose attribute byte has bit `0x80` set is not written back as it was read. -/
theorem serialize_decode_ne : ∃ s : Slot, s.decode.serialize ≠ s.toList :=
  ⟨⟨List.replicate 11 0 ++ 0x80 :: List.replicate 20 0, by simp⟩, by decide⟩

end FatDir
