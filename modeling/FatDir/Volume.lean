import FatDir.CreateIter

/-!
# The directories of a volume, and the path walks

`Dir`'s path operations see a volume through its directories: the root directory, and the directory on the cluster
chain that starts at each cluster. A `Volume` holds their slot streams and the chains handed to the cluster layer's
`free` so far; the cluster layer itself is not in this source, and is modelled from the specification: a directory
reads and writes its slots (`DirStream`), and freeing a chain records it. A directory handle is an `Option Nat`, as
`to_dir` builds it from an entry: `none` for the root, `some n` for the chain at `n`.

`split_path`, `find_entry`, `is_empty`, `to_dir`, `to_file` and the four walks `open_dir`, `open_file`,
`create_file` and `remove` follow the source. The walks share their recursion (`walk`): they differ only in what they
do with the last component.

* `walk_eq`: the walk satisfies the source's recursion, one component and then the walk of the rest; its fuel, the
  path's length plus one, never runs out (`length_splitPath_rest`).
* `findIn_ok`: what `find_entry` returns is an entry the iterator yields, and its name matches.
* `markLoop_of_le`: inside the stream, the loop of `remove` marks the slots of its range free and writes nothing else.
-/

namespace FatDir

/-! ## Volumes -/

/-- The directories of a volume: the root directory's stream, the stream of the directory on the chain that starts
at each cluster, and the chains freed so far, in order. -/
structure Volume where
  root : DirStream
  chain : Nat → DirStream
  freed : List Nat

namespace Volume

/-- The stream of a directory: the root for `none`, the chain at `n` for `some n`. -/
def stream (v : Volume) : Option Nat → DirStream
  | none => v.root
  | some n => v.chain n

/-- Replace the stream of a directory. -/
def setStream (v : Volume) : Option Nat → DirStream → Volume
  | none, st => { v with root := st }
  | some n, st => { v with chain := Function.update v.chain n st }

/-- Modelled from the spec: `ClusterIterator::free` is not in the source. `cluster_iter(n).free()` for the first
cluster of an entry, if it has one: the chain is recorded as freed, and no directory's stream changes. -/
def freeChain (v : Volume) : Option Nat → Volume
  | some n => { v with freed := v.freed ++ [n] }
  | none => v

@[simp] theorem stream_setStream_self (v : Volume) (d : Option Nat) (st : DirStream) :
    (v.setStream d st).stream d = st := by
  cases d <;> simp [setStream, stream]

theorem stream_setStream_of_ne (v : Volume) {d d' : Option Nat} (h : d' ≠ d) (st : DirStream) :
    (v.setStream d st).stream d' = v.stream d' := by
  cases d <;> cases d' <;> simp_all [setStream, stream, Function.update_noteq]

@[simp] theorem freed_setStream (v : Volume) (d : Option Nat) (st : DirStream) : (v.setStream d st).freed = v.freed := by
  cases d <;> rfl

@[simp] theorem stream_freeChain (v : Volume) (c d : Option Nat) : (v.freeChain c).stream d = v.stream d := by
  cases c <;> cases d <;> rfl

@[simp] theorem freed_freeChain (v : Volume) (c : Option Nat) : (v.freeChain c).freed = v.freed ++ c.toList := by
  cases c <;> simp [freeChain]

end Volume

/-! ## Paths -/

/-- `trim_matches('/')`: the characters with every leading and trailing `/` removed. -/
def trimSlashes (cs : List Char) : List Char :=
  ((cs.dropWhile (· == '/')).reverse.dropWhile (· == '/')).reverse

/-- `Dir::split_path`: the trimmed path cut at its first `/` (`splitn(2, "/")`), into its first component and the
rest, if there is a `/`. -/
def splitPath (path : String) : String × Option String :=
  match (trimSlashes path.data).span (· != '/') with
  | (comp, []) => (⟨comp⟩, none)
  | (comp, _ :: rest) => (⟨comp⟩, some ⟨rest⟩)

theorem dropWhile_slash_of_not_mem {cs : List Char} (h : '/' ∉ cs) : cs.dropWhile (· == '/') = cs := by
  cases cs with
  | nil => rfl
  | cons c cs =>
    have hc : c ≠ '/' := fun hc => h (hc ▸ List.mem_cons_self c cs)
    simp [List.dropWhile_cons, hc]

/-- A path with no `/` is one component. -/
theorem splitPath_of_not_mem {path : String} (h : '/' ∉ path.data) : splitPath path = (path, none) := by
  have ht : trimSlashes path.data = path.data := by
    rw [trimSlashes, dropWhile_slash_of_not_mem h, dropWhile_slash_of_not_mem (by simpa using h),
      List.reverse_reverse]
  have hall : ∀ c ∈ path.data, (c != '/') = true := fun c hc => by
    simpa using fun hc' : c = '/' => h (hc' ▸ hc)
  rw [splitPath, ht, List.span_eq_take_drop, List.takeWhile_eq_self_iff.mpr hall,
    List.dropWhile_eq_nil_iff.mpr hall]

/-- A path of two components, neither empty nor holding a `/`, splits into them. -/
theorem splitPath_two {n r : String} (hn : '/' ∉ n.data) (hn0 : n.data ≠ []) (hr : '/' ∉ r.data)
    (hr0 : r.data ≠ []) : splitPath (n ++ "/" ++ r) = (n, some r) := by
  obtain ⟨c, cs, hc⟩ := List.exists_cons_of_ne_nil hn0
  obtain ⟨rs, x, hx⟩ := (List.eq_nil_or_concat r.data).resolve_left hr0
  have hc' : c ≠ '/' := fun h => hn (by simp [hc, h])
  have hx' : x ≠ '/' := fun h => hr (by simp [hx, h])
  have hall : ∀ a ∈ n.data, (a != '/') = true := fun a ha => by
    simpa using fun h : a = '/' => hn (h ▸ ha)
  have ht : trimSlashes (n ++ "/" ++ r).data = n.data ++ '/' :: r.data := by
    simp [trimSlashes, hc, hx, hc', hx']
  rw [splitPath, ht, List.span_eq_take_drop, List.takeWhile_append_of_pos hall, List.dropWhile_append_of_pos hall]
  simp

/-- The rest of a path is shorter than the path. -/
theorem length_splitPath_rest {path name rest : String} (h : splitPath path = (name, some rest)) :
    rest.length < path.length := by
  have ht : (trimSlashes path.data).length ≤ path.data.length := by
    rw [trimSlashes, List.length_reverse]
    exact (List.dropWhile_sublist _).length_le.trans ((List.length_reverse _).trans_le (List.dropWhile_sublist _).length_le)
  unfold splitPath at h
  rw [List.span_eq_take_drop] at h
  split at h
  · cases h
  · next _ _ _ rest' heq =>
    cases h
    have hd := (List.dropWhile_sublist (l := trimSlashes path.data) (· != '/')).length_le
    rw [(Prod.mk.inj heq).2, List.length_cons] at hd
    show rest'.length < path.data.length
    omega

/-! ## Looking up a name -/

/-- `NotFound`, "file not found": no entry has the name. -/
def notFoundError : Fault := .io ⟨.notFound, "file not found"⟩

/-- `NotFound`, "removing non-empty directory is denied". -/
def nonEmptyError : Fault := .io ⟨.notFound, "removing non-empty directory is denied"⟩

/-- The panic of `to_file`'s assertion. -/
def notAFilePanic : Fault := .panic "Not a file entry"

/-- The panic of `to_dir`'s assertion. -/
def notADirPanic : Fault := .panic "Not a directory entry"

/-- The loop of `find_entry` over what the iterator yields: the first entry whose name is `name` up to ASCII case;
an error item ends the loop with its error. -/
def findIn (name : String) : List (Except Fault DirEntry) → Except Fault DirEntry
  | [] => .error notFoundError
  | .error f :: _ => .error f
  | .ok e :: rest => if eqIgnoreAsciiCase e.fileName name then .ok e else findIn name rest

/-- `Dir::find_entry`. -/
def findEntry (st : DirStream) (name : String) : Except Fault DirEntry := findIn name (DirIter.items st)

/-- The loop of `is_empty`: false at the first entry named neither `.` nor `..`. -/
def isEmptyIn : List (Except Fault DirEntry) → Except Fault Bool
  | [] => .ok true
  | .error f :: _ => .error f
  | .ok e :: rest => if e.fileName != "." && e.fileName != ".." then .ok false else isEmptyIn rest

/-- `Dir::is_empty`. -/
def isEmpty (st : DirStream) : Except Fault Bool := isEmptyIn (DirIter.items st)

/-- `find_entry` returns an entry the iterator yields, with a matching name. -/
theorem findIn_ok {name : String} : ∀ {items : List (Except Fault DirEntry)} {e : DirEntry},
    findIn name items = .ok e → eqIgnoreAsciiCase e.fileName name ∧ ∃ pre post, items = pre ++ .ok e :: post
  | [], _, h => nomatch h
  | .error _ :: _, _, h => nomatch h
  | .ok e' :: rest, e, h => by
    unfold findIn at h
    split at h
    · cases h
      exact ⟨‹_›, [], rest, rfl⟩
    · obtain ⟨hn, pre, post, rfl⟩ := findIn_ok h
      exact ⟨hn, .ok e' :: pre, post, rfl⟩

/-! ## Entries as directories and files -/

/-- `DirEntry::to_dir`: the directory on the entry's chain, or the root when it has none; it panics on a file. -/
def DirEntry.toDir (e : DirEntry) : Except Fault (Option Nat) :=
  if e.isDir then .ok e.firstCluster else .error notADirPanic

/-- A `File` as `to_file` makes it: its first cluster and its entry (the entry's position is left out). -/
structure File where
  firstCluster : Option Nat
  entry : DirFileEntryData
  deriving DecidableEq

/-- `DirEntry::to_file`; it panics on a directory. -/
def DirEntry.toFile (e : DirEntry) : Except Fault File :=
  if e.isDir then .error notAFilePanic else .ok ⟨e.firstCluster, e.data⟩

/-! ## Marking the slots of an entry free -/

/-- A slot as `remove` rewrites it: decoded, its first name byte or its order set to the free flag, encoded. -/
def markFree (s : Slot) : Slot :=
  match s.decode with
  | .file d => (DirEntryData.file { d with name := d.name.set 0 dirEntryFreeFlag }).toSlot
  | .lfn d => (DirEntryData.lfn { d with order := dirEntryFreeFlag }).toSlot

/-- The loop of `remove` over the `num` slots from slot `i`: read a slot, mark it, write it back. -/
def markLoop : Nat → Nat → DirStream → Except Fault Unit × DirStream
  | 0, _, st => (.ok (), st)
  | num + 1, i, st =>
    match st.readSlot i with
    | .error f => (.error f, st)
    | .ok s =>
      match st.writeSlot i (markFree s) with
      | .error f => (.error f, st)
      | .ok st' => markLoop num (i + 1) st'

/-- The slots `[i, i + num)` marked free, the others as they were. -/
def markRange (slots : List Slot) (i num : Nat) : List Slot :=
  slots.mapIdx fun j s => if i ≤ j ∧ j < i + num then markFree s else s

@[simp] theorem length_markRange (slots : List Slot) (i num : Nat) : (markRange slots i num).length = slots.length :=
  List.length_mapIdx

theorem getElem?_markRange (slots : List Slot) (i num j : Nat) :
    (markRange slots i num)[j]? = if i ≤ j ∧ j < i + num then slots[j]?.map markFree else slots[j]? := by
  rw [markRange, List.getElem?_mapIdx]
  split <;> cases slots[j]? <;> simp_all

/-- Inside the stream, the loop marks its range and changes nothing else. -/
theorem markLoop_of_le : ∀ (num i : Nat) (st : DirStream), i + num ≤ st.slots.length →
    markLoop num i st = (.ok (), { st with slots := markRange st.slots i num })
  | 0, i, st, _ => by
    have h : markRange st.slots i 0 = st.slots :=
      List.ext_getElem? fun j => by rw [getElem?_markRange, if_neg (by omega)]
    rw [markLoop, h]
  | num + 1, i, st, h => by
    have hi : i < st.slots.length := by omega
    rw [markLoop, DirStream.readSlot_of_getElem? (List.getElem?_eq_getElem hi)]
    dsimp only
    rw [DirStream.writeSlot_of_lt _ hi]
    dsimp only
    rw [markLoop_of_le num (i + 1) _ (by simp only [List.length_set]; omega)]
    have hm : markRange (st.slots.set i (markFree st.slots[i])) (i + 1) num = markRange st.slots i (num + 1) := by
      refine List.ext_getElem? fun j => ?_
      rw [getElem?_markRange, getElem?_markRange, List.getElem?_set]
      by_cases hj : i = j
      · subst hj
        simp [hi]
      · simp only [hj, if_false]
        congr 1
        apply propext
        omega
    dsimp only
    rw [hm]

/-! ## The path walks -/

/-- The recursion the four walks share, with `fuel` calls: split off the first component and find it; with a rest,
go down into the directory the entry is and walk the rest there; at the last component, `leaf` does the walk's own
work with the result of `find_entry`. Every walk but `create_file` fails at once when `find_entry` does; so does
`create_file` when a rest follows. -/
def walkAux {α : Type} (leaf : Volume → Option Nat → String → Except Fault DirEntry → Except Fault α × Volume) :
    Nat → Volume → Option Nat → String → Except Fault α × Volume
  | 0, v, _, _ => (.error notFoundError, v)
  | fuel + 1, v, d, path =>
    let (name, restOpt) := splitPath path
    let r := findEntry (v.stream d) name
    match restOpt with
    | some rest =>
      match r.bind DirEntry.toDir with
      | .error f => (.error f, v)
      | .ok d' => walkAux leaf fuel v d' rest
    | none => leaf v d name r

/-- A walk from directory `d`, with more calls than `path` has components. -/
def walk {α : Type} (leaf : Volume → Option Nat → String → Except Fault DirEntry → Except Fault α × Volume)
    (v : Volume) (d : Option Nat) (path : String) : Except Fault α × Volume :=
  walkAux leaf (path.length + 1) v d path

section Walk

variable {α : Type} (leaf : Volume → Option Nat → String → Except Fault DirEntry → Except Fault α × Volume)

theorem walkAux_congr : ∀ (n m : Nat) (v : Volume) (d : Option Nat) (path : String), path.length < n →
    path.length < m → walkAux leaf n v d path = walkAux leaf m v d path
  | 0, _, _, _, _, h, _ => absurd h (Nat.not_lt_zero _)
  | _, 0, _, _, _, _, h => absurd h (Nat.not_lt_zero _)
  | n + 1, m + 1, v, d, path, hn, hm => by
    unfold walkAux
    match hs : splitPath path with
    | (name, none) => rfl
    | (name, some rest) =>
      have hr := length_splitPath_rest hs
      dsimp only
      split
      · rfl
      · exact walkAux_congr n m v _ rest (by omega) (by omega)

/-- The walk is the source's recursion: its fuel never runs out. -/
theorem walk_eq (v : Volume) (d : Option Nat) (path : String) :
    walk leaf v d path =
      match splitPath path with
      | (name, some rest) =>
        match (findEntry (v.stream d) name).bind DirEntry.toDir with
        | .error f => (.error f, v)
        | .ok d' => walk leaf v d' rest
      | (name, none) => leaf v d name (findEntry (v.stream d) name) := by
  unfold walk walkAux
  match hs : splitPath path with
  | (name, none) => rfl
  | (name, some rest) =>
    have hr := length_splitPath_rest hs
    dsimp only
    split
    · rfl
    · exact walkAux_congr leaf _ _ v _ rest hr (Nat.lt_succ_self _)

/-- A walk of one component is its leaf. -/
theorem walk_of_not_mem {path : String} (h : '/' ∉ path.data) (v : Volume) (d : Option Nat) :
    walk leaf v d path = leaf v d path (findEntry (v.stream d) path) := by
  rw [walk_eq, splitPath_of_not_mem h]

end Walk

/-- The last step of `open_dir`: the entry as a directory. -/
def openDirLeaf (v : Volume) (_ : Option Nat) (_ : String) (r : Except Fault DirEntry) :
    Except Fault (Option Nat) × Volume :=
  (r.bind DirEntry.toDir, v)

/-- The last step of `open_file`: the entry as a file. -/
def openFileLeaf (v : Volume) (_ : Option Nat) (_ : String) (r : Except Fault DirEntry) : Except Fault File × Volume :=
  (r.bind DirEntry.toFile, v)

/-- The last step of `create_file`: the entry found, or else a new entry for the name, as a file. -/
def createFileLeaf (v : Volume) (d : Option Nat) (name : String) :
    Except Fault DirEntry → Except Fault File × Volume
  | .error _ =>
    let (r, st) := createFileEntry (v.stream d) name
    (r.bind DirEntry.toFile, v.setStream d st)
  | .ok e => (e.toFile, v)

/-- The last step of `remove` on the entry found in directory `d`: a directory must hold only `.` and `..`; the
entry's chain is freed, then every slot of its range is marked free. -/
def removeEntry (v : Volume) (d : Option Nat) (e : DirEntry) : Except Fault Unit × Volume :=
  match (if e.isDir then isEmpty (v.stream e.firstCluster) else .ok true) with
  | .error f => (.error f, v)
  | .ok false => (.error nonEmptyError, v)
  | .ok true =>
    let v' := v.freeChain e.firstCluster
    let (r, st) := markLoop ((e.offsetRange.2 - e.offsetRange.1) / dirEntrySize) (e.offsetRange.1 / dirEntrySize)
      (v'.stream d)
    (r, v'.setStream d st)

/-- The last step of `remove`. -/
def removeLeaf (v : Volume) (d : Option Nat) (_ : String) : Except Fault DirEntry → Except Fault Unit × Volume
  | .error f => (.error f, v)
  | .ok e => removeEntry v d e

/-- `Dir::open_dir` from directory `d`. -/
def openDir (v : Volume) (d : Option Nat) (path : String) : Except Fault (Option Nat) := (walk openDirLeaf v d path).1

/-- `Dir::open_file` from directory `d`. -/
def openFile (v : Volume) (d : Option Nat) (path : String) : Except Fault File := (walk openFileLeaf v d path).1

/-- `Dir::create_file` from directory `d`. -/
def createFile (v : Volume) (d : Option Nat) (path : String) : Except Fault File × Volume :=
  walk createFileLeaf v d path

/-- `Dir::remove` from directory `d`. -/
def remove (v : Volume) (d : Option Nat) (path : String) : Except Fault Unit × Volume := walk removeLeaf v d path

end FatDir
