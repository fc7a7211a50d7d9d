import FatDir.Entry

/-!
# Faults and the slot stream of a directory

Every operation of the directory code returns an `io::Result` or panics; `Fault` is either outcome, with the
`io::ErrorKind` and message, or the panic message. A directory is read and written through `DirRawStream`, either a
file stream over a cluster chain or the fixed root region of FAT12/16. All its reads and writes are whole slots at
slot boundaries, so the model keeps the stream as a list of slots (`DirStream`).

The streams themselves are outside this repository. From the specification: reading past the end fails (the
`read_exact` of byteorder meets end of file), writing at the end of the root region fails, and writing at the end of
a chain appends a cluster, which the cluster layer is required to hand out zero-filled.

* A write inside the stream changes that slot only (`getElem?_writeSlot`), and a write at the end of a chain leaves
  a zero slot after the new one whenever the cluster holds more than one slot (`writeSlot_grow`).
-/

namespace FatDir

/-- The `io::ErrorKind`s the directory code meets. -/
inductive ErrorKind
  | notFound
  | invalidInput
  | unexpectedEof
  | writeZero
  deriving DecidableEq, Repr

/-- An `io::Error`: its kind and its message. -/
structure IoError where
  kind : ErrorKind
  message : String
  deriving DecidableEq, Repr

/-- How a call fails: it returns an `io::Error`, or it panics with a message. -/
inductive Fault
  | io (e : IoError)
  | panic (message : String)
  deriving DecidableEq, Repr

/-- Outcomes compare, so that a run on a given directory can be checked by evaluation. -/
instance decEqExcept {ε α : Type} [DecidableEq ε] [DecidableEq α] : DecidableEq (Except ε α)
  | .ok a, .ok b => decidable_of_iff (a = b) (by simp)
  | .error a, .error b => decidable_of_iff (a = b) (by simp)
  | .ok _, .error _ => isFalse (by simp)
  | .error _, .ok _ => isFalse (by simp)

/-- The error of `read_exact` at end of file. -/
def eofError : Fault := .io ⟨.unexpectedEof, "failed to fill whole buffer"⟩

/-- The error of `write_all` when the stream takes no more bytes. -/
def writeZeroError : Fault := .io ⟨.writeZero, "failed to write whole buffer"⟩

/-- A slot of 32 zero bytes: what a zero-filled cluster holds. -/
def zeroSlot : Slot := ⟨List.replicate 32 0, rfl⟩

/-- Modelled from the spec: `File` and `DiskSlice`, behind `DirRawStream`, are not in the source. The slot stream of
a directory. `cluster = some k`: a cluster chain (`DirRawStream::File`) whose clusters hold `k` slots, and which
grows whenever a write reaches its end (allocating a cluster never fails here); `none`: the root region of FAT12/16
(`DirRawStream::Root`), which cannot grow. -/
structure DirStream where
  slots : List Slot
  cluster : Option Nat
  deriving DecidableEq

namespace DirStream

/-- Read the slot at index `i` (`DirEntryData::deserialize` after a seek to `32 * i`). -/
def readSlot (st : DirStream) (i : Nat) : Except Fault Slot :=
  match st.slots[i]? with
  | some s => .ok s
  | none => .error eofError

/-- Modelled from the spec: the writes of `File` and `DiskSlice` are not in the source. Write the slot at index `i`
(`serialize` after a seek to `32 * i`). A write starts at most at the end: there a chain grows by one zero-filled
cluster, which never fails, and the root region fails with `WriteZero`. -/
def writeSlot (st : DirStream) (i : Nat) (s : Slot) : Except Fault DirStream :=
  if i < st.slots.length then .ok { st with slots := st.slots.set i s }
  else if i = st.slots.length then
    match st.cluster with
    | some k => .ok { st with slots := st.slots ++ s :: List.replicate (k - 1) zeroSlot }
    | none => .error writeZeroError
  else .error writeZeroError

theorem readSlot_of_getElem? {st : DirStream} {i : Nat} {s : Slot} (h : st.slots[i]? = some s) :
    st.readSlot i = .ok s := by
  simp [readSlot, h]

theorem writeSlot_of_lt {st : DirStream} {i : Nat} (s : Slot) (h : i < st.slots.length) :
    st.writeSlot i s = .ok { st with slots := st.slots.set i s } := if_pos h

/-- A write at the end of a chain appends a zero-filled cluster that starts with the new slot. -/
theorem writeSlot_grow {st : DirStream} {k : Nat} (s : Slot) (hc : st.cluster = some k) :
    st.writeSlot st.slots.length s = .ok { st with slots := st.slots ++ s :: List.replicate (k - 1) zeroSlot } := by
  simp [writeSlot, hc]

theorem length_le_writeSlot {st st' : DirStream} {i : Nat} {s : Slot} (h : st.writeSlot i s = .ok st') :
    st.slots.length ≤ st'.slots.length ∧ i < st'.slots.length ∧ st'.cluster = st.cluster := by
  unfold writeSlot at h
  split at h
  · cases h
    simp_all
  · split at h
    · split at h
      · cases h
        simp_all
      · cases h
    · cases h

/-- Writing slot `i` changes slot `i` only; the stream never shrinks, and a slot it gains past the written one is
zero. -/
theorem getElem?_writeSlot {st st' : DirStream} {i : Nat} {s : Slot} (h : st.writeSlot i s = .ok st') (j : Nat) :
    st'.slots[j]? = if j = i then some s else if j < st.slots.length then st.slots[j]? else
      if j < st'.slots.length then some zeroSlot else none := by
  unfold writeSlot at h
  by_cases hi : i < st.slots.length
  · rw [if_pos hi] at h
    cases h
    by_cases hj : j = i
    · subst hj
      simp [hi]
    · rw [List.getElem?_set_ne (Ne.symm hj), if_neg hj]
      by_cases hjl : j < st.slots.length
      · rw [if_pos hjl]
      · rw [if_neg hjl, List.length_set, if_neg hjl, List.getElem?_eq_none (by omega)]
  · rw [if_neg hi] at h
    by_cases he : i = st.slots.length
    · rw [if_pos he] at h
      cases hc : st.cluster with
      | none => simp [hc] at h
      | some k =>
        rw [hc] at h
        cases h
        subst he
        rcases Nat.lt_trichotomy j st.slots.length with hj | rfl | hj
        · simp [hj, Nat.ne_of_lt hj, List.getElem?_append_left hj]
        · simp [List.getElem_append_right]
        · obtain ⟨m, rfl⟩ := Nat.exists_eq_add_of_lt hj
          rw [List.getElem?_append_right (by omega), if_neg (by omega), if_neg (by omega),
            show st.slots.length + m + 1 - st.slots.length = m + 1 by omega, List.getElem?_cons_succ,
            List.getElem?_replicate]
          simp only [List.length_append, List.length_cons, List.length_replicate]
          split_ifs <;> first | rfl | omega
    · rw [if_neg he] at h
      cases h

end DirStream

end FatDir
