import Mathlib.Data.Vector.Basic
import Mathlib.Data.String.Basic

/-!
# Little-endian fields and file attributes

`byteorder`'s reads on a `&mut Read` are a state monad over the unread bytes that fails on a short read
(`Reader`); its writes are the bytes they append (`le16`, `le32`). Every reader comes with two lemmas: the bytes
of a write are read back (`readU16_le16`), and a read that succeeds determines the bytes it consumed
(`le16_of_readU16`). `readArray` lifts both to `read_exact` and `read_u16_into` (`readArray_write`,
`write_of_readArray`).

`FileAttributes` is the `bitflags` set over `u8`; a value carries the fact that only its six named bits are set,
so `fromBitsTruncate` is where the codec forgets bits `0x40` and `0x80` of an attribute byte.
-/

namespace FatDir

/-! ## Bytes as naturals -/

@[simp] theorem toNat_u8_ofNat (n : Nat) : (UInt8.ofNat n).toNat = n % 256 := BitVec.toNat_ofNat n 8

@[simp] theorem toNat_u16_ofNat (n : Nat) : (UInt16.ofNat n).toNat = n % 65536 := BitVec.toNat_ofNat n 16

@[simp] theorem toNat_u32_ofNat (n : Nat) : (UInt32.ofNat n).toNat = n % 4294967296 := BitVec.toNat_ofNat n 32

/-! ## The reader -/

/-- A reader over the unread bytes of a stream; `none` is a short read (`UnexpectedEof`). -/
abbrev Reader := StateT (List UInt8) Option

/-- `read_u8`. -/
def readU8 : Reader UInt8 := fun
  | [] => none
  | b :: bs => some (b, bs)

/-- `read_u16::<LittleEndian>`: the low byte first. -/
def readU16 : Reader UInt16 := do
  let lo ← readU8
  let hi ← readU8
  return UInt16.ofNat (lo.toNat + 256 * hi.toNat)

/-- `read_u32::<LittleEndian>`: the low half first. -/
def readU32 : Reader UInt32 := do
  let lo ← readU16
  let hi ← readU16
  return UInt32.ofNat (lo.toNat + 65536 * hi.toNat)

/-- `n` values read one after another: `read_exact` into a `[u8; n]`, `read_u16_into` into a `[u16; n]`. -/
def readArray {α : Type} (r : Reader α) : (n : Nat) → Reader (Mathlib.Vector α n)
  | 0 => pure Mathlib.Vector.nil
  | n + 1 => do
    let a ← r
    let v ← readArray r n
    return a ::ᵥ v

/-- `write_u16::<LittleEndian>`. -/
def le16 (v : UInt16) : List UInt8 := [UInt8.ofNat v.toNat, UInt8.ofNat (v.toNat / 256)]

/-- `write_u32::<LittleEndian>`. -/
def le32 (v : UInt32) : List UInt8 := le16 (UInt16.ofNat v.toNat) ++ le16 (UInt16.ofNat (v.toNat / 65536))

/-- Running a bind whose first reader succeeded. -/
theorem run_bind_of_some {α β : Type} {x : Reader α} {f : α → Reader β} {bs rest : List UInt8} {a : α}
    (h : x.run bs = some (a, rest)) : (x >>= f).run bs = (f a).run rest := by
  rw [StateT.run_bind, h]
  rfl

/-- A bind that succeeded ran both of its parts. -/
theorem run_bind_eq_some {α β : Type} {x : Reader α} {f : α → Reader β} {bs : List UInt8} {r : β × List UInt8}
    (h : (x >>= f).run bs = some r) : ∃ a rest, x.run bs = some (a, rest) ∧ (f a).run rest = some r := by
  rw [StateT.run_bind] at h
  cases hx : x.run bs with
  | none => rw [hx] at h; cases h
  | some p => rw [hx] at h; exact ⟨p.1, p.2, rfl, h⟩

theorem run_pure_eq_some {α : Type} {a : α} {bs : List UInt8} {r : α × List UInt8}
    (h : (pure a : Reader α).run bs = some r) : r = (a, bs) :=
  (Option.some.inj h).symm

@[simp] theorem readU8_cons (b : UInt8) (bs : List UInt8) : readU8.run (b :: bs) = some (b, bs) := rfl

@[simp] theorem readU8_nil : readU8.run [] = none := rfl

@[simp] theorem length_le16 (v : UInt16) : (le16 v).length = 2 := rfl

@[simp] theorem length_le32 (v : UInt32) : (le32 v).length = 4 := rfl

theorem length_flatMap_le16 (l : List UInt16) : (l.flatMap le16).length = 2 * l.length := by
  induction l with
  | nil => rfl
  | cons a l ih => rw [List.flatMap_cons, List.length_append, ih, length_le16, List.length_cons]; omega

theorem readU16_cons_cons (a b : UInt8) (rest : List UInt8) :
    readU16.run (a :: b :: rest) = some (UInt16.ofNat (a.toNat + 256 * b.toNat), rest) := by
  simp [readU16]

/-! ## Round trips of the fields -/

theorem readU16_le16 (v : UInt16) (rest : List UInt8) : readU16.run (le16 v ++ rest) = some (v, rest) := by
  have hv := v.toNat_lt_size
  simp only [le16, List.cons_append, List.nil_append, readU16_cons_cons, Option.some.injEq, Prod.mk.injEq,
    and_true]
  ext
  simp only [toNat_u16_ofNat, toNat_u8_ofNat, UInt16.size] at hv ⊢
  omega

theorem le16_of_readU16 {bs rest : List UInt8} {v : UInt16} (h : readU16.run bs = some (v, rest)) :
    le16 v ++ rest = bs := by
  match bs, h with
  | a :: b :: rest', h =>
    rw [readU16_cons_cons, Option.some.injEq, Prod.mk.injEq] at h
    obtain ⟨rfl, rfl⟩ := h
    have ha := a.toNat_lt_size
    have hb := b.toNat_lt_size
    simp only [UInt8.size] at ha hb
    simp only [le16, toNat_u16_ofNat, List.cons_append, List.nil_append, List.cons.injEq, and_true]
    constructor <;> ext <;> simp only [toNat_u8_ofNat] <;> omega
  | [], h => simp [readU16] at h
  | [_], h => simp [readU16] at h

theorem readU32_le32 (v : UInt32) (rest : List UInt8) : readU32.run (le32 v ++ rest) = some (v, rest) := by
  have hv := v.toNat_lt_size
  simp only [le32, List.append_assoc, readU32, StateT.run_bind, readU16_le16, Option.bind_eq_bind,
    Option.some_bind, StateT.run_pure, Option.pure_def, Option.some.injEq, Prod.mk.injEq, and_true]
  ext
  simp only [toNat_u32_ofNat, toNat_u16_ofNat, UInt32.size] at hv ⊢
  omega

theorem le32_of_readU32 {bs rest : List UInt8} {v : UInt32} (h : readU32.run bs = some (v, rest)) :
    le32 v ++ rest = bs := by
  simp only [readU32, StateT.run_bind, Option.bind_eq_bind, Option.bind_eq_some, StateT.run_pure, Option.some.injEq,
    Prod.mk.injEq] at h
  obtain ⟨⟨lo, bs₁⟩, h₁, ⟨hi, bs₂⟩, h₂, rfl, rfl⟩ := h
  dsimp only at h₂ ⊢
  rw [← le16_of_readU16 h₁, ← le16_of_readU16 h₂, le32, List.append_assoc]
  have hl := lo.toNat_lt_size
  have hh := hi.toNat_lt_size
  simp only [UInt16.size] at hl hh
  have hx : (UInt32.ofNat (lo.toNat + 65536 * hi.toNat)).toNat = lo.toNat + 65536 * hi.toNat := by
    rw [toNat_u32_ofNat]; omega
  have hlo : UInt16.ofNat (UInt32.ofNat (lo.toNat + 65536 * hi.toNat)).toNat = lo := by
    ext; rw [hx, toNat_u16_ofNat]; omega
  have hhi : UInt16.ofNat ((UInt32.ofNat (lo.toNat + 65536 * hi.toNat)).toNat / 65536) = hi := by
    ext; rw [hx, toNat_u16_ofNat]; omega
  rw [hlo, hhi]

section Arrays

variable {α : Type} {r : Reader α} {w : α → List UInt8}

theorem readArray_write (hr : ∀ a rest, r.run (w a ++ rest) = some (a, rest)) :
    ∀ {n : Nat} (v : Mathlib.Vector α n) (rest : List UInt8),
      (readArray r n).run (v.toList.flatMap w ++ rest) = some (v, rest)
  | 0, v, rest => by simp [readArray, Mathlib.Vector.eq_nil v]
  | n + 1, v, rest => by
    obtain ⟨a, v, rfl⟩ := Mathlib.Vector.exists_eq_cons v
    simp [readArray, List.append_assoc, hr, readArray_write hr v]

theorem write_of_readArray (hr : ∀ bs a rest, r.run bs = some (a, rest) → w a ++ rest = bs) :
    ∀ {n : Nat} {bs rest : List UInt8} {v : Mathlib.Vector α n},
      (readArray r n).run bs = some (v, rest) → v.toList.flatMap w ++ rest = bs
  | 0, bs, rest, v, h => by
    simp only [readArray, StateT.run_pure, Option.some.injEq, Prod.mk.injEq] at h
    obtain ⟨rfl, rfl⟩ := h
    rfl
  | n + 1, bs, rest, v, h => by
    simp only [readArray, StateT.run_bind, Option.bind_eq_bind, Option.bind_eq_some, StateT.run_pure, Option.some.injEq,
      Prod.mk.injEq] at h
    obtain ⟨⟨a, bs₁⟩, h₁, ⟨v', bs₂⟩, h₂, rfl, rfl⟩ := h
    dsimp only at h₂ ⊢
    rw [Mathlib.Vector.toList_cons, List.flatMap_cons, List.append_assoc, write_of_readArray hr h₂, hr _ _ _ h₁]

end Arrays

theorem readBytes_write {n : Nat} (v : Mathlib.Vector UInt8 n) (rest : List UInt8) :
    (readArray readU8 n).run (v.toList ++ rest) = some (v, rest) := by
  simpa using readArray_write (r := readU8) (w := fun b => [b]) (fun _ _ => rfl) v rest

theorem write_of_readBytes {n : Nat} {bs rest : List UInt8} {v : Mathlib.Vector UInt8 n}
    (h : (readArray readU8 n).run bs = some (v, rest)) : v.toList ++ rest = bs := by
  have hr : ∀ bs a rest, readU8.run bs = some (a, rest) → [a] ++ rest = bs := by
    rintro (_ | ⟨b, bs⟩) a rest h <;> simp_all
  simpa using write_of_readArray hr h

/-! ## Readers that never run short -/

/-- `r` reads exactly `k` bytes whenever at least `k` are left. -/
def Reads {α : Type} (r : Reader α) (k : Nat) : Prop :=
  ∀ bs : List UInt8, k ≤ bs.length → ∃ a, r.run bs = some (a, bs.drop k)

section Reads

variable {α β : Type}

theorem reads_readU8 : Reads readU8 1
  | b :: _, _ => ⟨b, rfl⟩

theorem reads_pure (a : α) : Reads (pure a : Reader α) 0 := fun _ _ => ⟨a, rfl⟩

theorem Reads.bind {r : Reader α} {f : α → Reader β} {k m : Nat} (hr : Reads r k) (hf : ∀ a, Reads (f a) m) :
    Reads (r >>= f) (k + m) := by
  intro bs h
  obtain ⟨a, ha⟩ := hr bs (by omega)
  obtain ⟨b, hb⟩ := hf a (bs.drop k) (by rw [List.length_drop]; omega)
  exact ⟨b, by rw [StateT.run_bind, ha, Option.bind_eq_bind, Option.some_bind, hb, List.drop_drop]⟩

theorem Reads.lift {x : Option α} {a : α} (h : x = some a) : Reads (StateT.lift x : Reader α) 0 :=
  fun _ _ => ⟨a, by simp [StateT.lift, h]⟩

theorem Reads.ite {c : Prop} [Decidable c] {r₁ r₂ : Reader α} {k : Nat} (h₁ : Reads r₁ k) (h₂ : Reads r₂ k) :
    Reads (if c then r₁ else r₂) k := by
  split
  · exact h₁
  · exact h₂

theorem reads_readU16 : Reads readU16 2 := reads_readU8.bind fun _ => reads_readU8.bind fun _ => reads_pure _

theorem reads_readU32 : Reads readU32 4 := reads_readU16.bind fun _ => reads_readU16.bind fun _ => reads_pure _

theorem reads_readArray {r : Reader α} {k : Nat} (hr : Reads r k) : ∀ n, Reads (readArray r n) (n * k)
  | 0 => by simpa using reads_pure _
  | n + 1 => by
    have h := hr.bind fun a => (reads_readArray hr n).bind fun v => reads_pure (a ::ᵥ v)
    rwa [show k + (n * k + 0) = (n + 1) * k by rw [Nat.succ_mul]; omega] at h

end Reads

/-! ## File attributes -/

/-- `FileAttributes`: a `bitflags` set over `u8` whose six named bits are the only ones that can be set. -/
structure FileAttributes where
  bits : UInt8
  bits_lt : bits.toNat < 64
  deriving DecidableEq, Repr

namespace FileAttributes

def readOnly : FileAttributes := ⟨0x01, by decide⟩
def hidden : FileAttributes := ⟨0x02, by decide⟩
def system : FileAttributes := ⟨0x04, by decide⟩
def volumeId : FileAttributes := ⟨0x08, by decide⟩
def directory : FileAttributes := ⟨0x10, by decide⟩
def archive : FileAttributes := ⟨0x20, by decide⟩
/-- `LFN = READ_ONLY | HIDDEN | SYSTEM | VOLUME_ID`. -/
def lfn : FileAttributes := ⟨0x0F, by decide⟩

instance : Inhabited FileAttributes := ⟨⟨0, by decide⟩⟩

/-- `contains`: every bit of `f` is set in `a`; `attrs & LFN == LFN` is `attrs.contains lfn`. -/
def contains (a f : FileAttributes) : Bool := a.bits &&& f.bits == f.bits

/-- `from_bits_truncate`: the named bits of a byte, the others cleared. -/
def fromBitsTruncate (b : UInt8) : FileAttributes :=
  ⟨b &&& 0x3F, by rw [UInt8.and_toNat]; exact Nat.lt_of_le_of_lt Nat.and_le_right (by decide)⟩

@[simp] theorem fromBitsTruncate_bits (b : UInt8) : (fromBitsTruncate b).bits = b &&& 0x3F := rfl

/-- Truncating the bits of an attribute set gives it back. -/
@[simp] theorem fromBitsTruncate_self (a : FileAttributes) : fromBitsTruncate a.bits = a := by
  have h := a.bits_lt
  cases a
  simp only [fromBitsTruncate, mk.injEq]
  ext
  rw [UInt8.and_toNat]
  exact (Nat.and_pow_two_sub_one_eq_mod _ 6).trans (Nat.mod_eq_of_lt h)

end FileAttributes

end FatDir
