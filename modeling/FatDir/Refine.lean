import FatDir.Runs
import FatDir.Paths

/-!
# A directory as the names it holds

What `create_file` and `remove` are for, said over names rather than slots: a directory holds names no two of which
are equal up to ASCII case (`AbsDir`); `create_file` of a name makes the directory hold it, adding it when no name
equal to it is there (`AbsDir.create`); `remove` takes it away (`AbsDir.remove`); a call that fails changes nothing
(`AbsDir.step`). The names the iterator yields (`dirNames`) abstract a directory's slots.

* One call of `create_file` or `remove` of a name of one component, in a directory that keeps what every state of a
  run keeps (`RunInv`), is the abstract call up to the order of the names (`createFile_refines`, `remove_refines`), and
  so is every run of such calls from a directory of zero slots (`execCalls_refines`); after such a run `open_file`
  of a name gives a file exactly when the abstract directory holds the name (`execCalls_openFile`).
* Lookups agree: after `create_file` succeeds, `open_file` of the name gives the file it returned
  (`createFile_openFile`); after `remove` succeeds, the name is not found (`remove_findEntry`), and the lookup of
  every other name is as it was (`remove_findEntry_other`); `create_file`, succeeding or failing, keeps every entry
  a lookup found (`createFile_findEntry_other`).
* In every state a run reaches, no call panics: `create_file` fails only with `UnexpectedEof` or `WriteZero`, and
  `remove` only with `NotFound` or `UnexpectedEof` (`reachable_call_errors`); and `remove` of a name `create_file`
  has just added gives back the entries the iterator yielded before (`createFile_remove`).
* Along any path, a `remove` that succeeds took out one entry `find_entry` found, a file or a directory holding only
  `.` and `..`, and freed its chain alone (`remove_ok`); one that fails leaves the volume as it was (`remove_error`).
  A `create_file` that fails need not (`createFileEntry_root_overflow`).
-/

namespace FatDir

theorem eqIgnoreAsciiCase_congr {a b c : String} (h : eqIgnoreAsciiCase b c = true) :
    eqIgnoreAsciiCase a b = eqIgnoreAsciiCase a c := by
  unfold eqIgnoreAsciiCase at h ⊢
  rw [eq_of_beq h]

/-! ## The abstract directory -/

/-- A directory as its users see it: the names it holds, no two equal up to ASCII case. -/
structure AbsDir where
  names : List String
  unique : names.Pairwise fun a b => eqIgnoreAsciiCase a b = false

/-- A call on a directory, with a name of one component. -/
inductive Call
  | createFile (name : String)
  | remove (name : String)
  deriving DecidableEq

namespace AbsDir

/-- The directory that holds no name. -/
def empty : AbsDir := ⟨[], .nil⟩

/-- Whether a name equal to `name` up to ASCII case is held. -/
def holds (a : AbsDir) (name : String) : Bool := a.names.any fun n => eqIgnoreAsciiCase n name

/-- What `create_file` is for: afterwards the name is held, added when no name equal to it was. -/
def create (a : AbsDir) (name : String) : AbsDir :=
  if h : a.holds name then a
  else ⟨name :: a.names, List.pairwise_cons.mpr ⟨fun n hn => by
    rw [eqIgnoreAsciiCase_comm]
    exact Bool.eq_false_iff.mpr (List.any_eq_false.mp (Bool.eq_false_iff.mpr h) n hn), a.unique⟩⟩

/-- What `remove` is for: afterwards no name equal to `name` is held. -/
def remove (a : AbsDir) (name : String) : AbsDir :=
  ⟨a.names.filter fun n => !eqIgnoreAsciiCase n name, a.unique.sublist (List.filter_sublist _)⟩

/-- A call, told whether it succeeded: one that failed changes nothing. -/
def step (a : AbsDir) : Call → Bool → AbsDir
  | _, false => a
  | .createFile name, true => a.create name
  | .remove name, true => a.remove name

/-- A run of calls, told their outcomes. -/
def run : AbsDir → List Call → List Bool → AbsDir
  | a, c :: cs, b :: bs => (a.step c b).run cs bs
  | a, _, _ => a

/-- Whether a name is held depends on the names only, not on their order. -/
theorem holds_of_perm {a : AbsDir} {ns : List String} (h : ns.Perm a.names) (name : String) :
    a.holds name = ns.any fun n => eqIgnoreAsciiCase n name := by
  rw [holds, Bool.eq_iff_iff, List.any_eq_true, List.any_eq_true]
  exact ⟨fun ⟨x, hx, hn⟩ => ⟨x, h.mem_iff.mpr hx, hn⟩, fun ⟨x, hx, hn⟩ => ⟨x, h.mem_iff.mp hx, hn⟩⟩

end AbsDir

/-- Among names no two of which are equal up to ASCII case, dropping those equal to one of them drops that one. -/
theorem filter_unique {pre post : List String} {n name : String}
    (hu : (pre ++ n :: post).Pairwise fun a b => eqIgnoreAsciiCase a b = false) (hn : eqIgnoreAsciiCase n name = true) :
    (pre ++ n :: post).filter (fun m => !eqIgnoreAsciiCase m name) = pre ++ post := by
  obtain ⟨-, hnp, hcross⟩ := List.pairwise_append.mp hu
  have hpre : ∀ m ∈ pre, eqIgnoreAsciiCase m name = false := fun m hm => by
    rw [← eqIgnoreAsciiCase_congr hn]
    exact hcross m hm n (List.mem_cons_self _ _)
  have hpost : ∀ m ∈ post, eqIgnoreAsciiCase m name = false := fun m hm => by
    rw [← eqIgnoreAsciiCase_congr hn, eqIgnoreAsciiCase_comm]
    exact List.rel_of_pairwise_cons hnp hm
  rw [List.filter_append, List.filter_cons_of_neg (by simp [hn]), List.filter_eq_self.mpr (by simpa using hpre),
    List.filter_eq_self.mpr (by simpa using hpost)]

/-! ## The abstraction of a directory -/

/-- The names the iterator yields from a directory, in order. -/
def dirNames (st : DirStream) : List String := (yielded (DirIter.items st)).map DirEntry.fileName

namespace Call

/-- The calls of the runs refined below, each a run of `Reachable`: a name of one component, and a good name to
create. -/
def Good : Call → Prop
  | createFile name => GoodName name ∧ '/' ∉ name.data
  | remove name => '/' ∉ name.data

/-- The call on directory `d`: whether it succeeded, and the volume after it. -/
def exec (d : Option Nat) (v : Volume) : Call → Bool × Volume
  | createFile name => ((FatDir.createFile v d name).1.isOk, (FatDir.createFile v d name).2)
  | remove name => ((FatDir.remove v d name).1.isOk, (FatDir.remove v d name).2)

end Call

/-- A run of calls on directory `d`: their outcomes, and the volume after them. -/
def execCalls (d : Option Nat) : Volume → List Call → List Bool × Volume
  | v, [] => ([], v)
  | v, c :: cs => ((c.exec d v).1 :: (execCalls d (c.exec d v).2 cs).1, (execCalls d (c.exec d v).2 cs).2)

/-! ## One call -/

/-- The entry `create_file_entry` returns is the default entry under its short name. -/
theorem createFileEntry_ok_data {st : DirStream} {name : String} {x : DirEntry}
    (h : (createFileEntry st name).1 = .ok x) : ∃ sn, x.data = { (default : DirFileEntryData) with name := sn } := by
  unfold createFileEntry at h
  dsimp only at h
  split_ifs at h
  repeat' split at h
  all_goals cases h
  exact ⟨_, rfl⟩

/-- The entry `create_file_entry` returns is a file. -/
theorem createFileEntry_ok_isDir {st : DirStream} {name : String} {x : DirEntry}
    (h : (createFileEntry st name).1 = .ok x) : x.isDir = false := by
  obtain ⟨sn, hx⟩ := createFileEntry_ok_data h
  rw [DirEntry.isDir, hx]
  exact (by decide : (default : DirFileEntryData).isDir = false)

/-- The entry `create_file_entry` returns has no cluster. -/
theorem createFileEntry_ok_firstCluster {st : DirStream} {name : String} {x : DirEntry}
    (h : (createFileEntry st name).1 = .ok x) : x.firstCluster = none := by
  obtain ⟨sn, hx⟩ := createFileEntry_ok_data h
  rw [DirEntry.firstCluster, hx]
  exact (by decide : (default : DirFileEntryData).firstCluster = none)

/-- `create_file` of a good name of one component, in a directory that keeps what every state of a run keeps, is
the abstract call: the names after it are the abstract directory's after it, in some order. -/
theorem createFile_refines {v : Volume} {d : Option Nat} {name : String} {a : AbsDir} (hname : GoodName name)
    (hs : '/' ∉ name.data) (h : RunInv (v.stream d)) (ha : (dirNames (v.stream d)).Perm a.names) :
    (dirNames ((createFile v d name).2.stream d)).Perm
      (a.step (.createFile name) (createFile v d name).1.isOk).names := by
  rw [createFile, walk_of_not_mem _ hs]
  cases hfind : findEntry (v.stream d) name with
  | ok e =>
    obtain ⟨hmem, hn⟩ := mem_of_findEntry hfind
    have hh : a.holds name = true := by
      rw [AbsDir.holds_of_perm ha, List.any_eq_true]
      exact ⟨e.fileName, List.mem_map_of_mem _ hmem, hn⟩
    have hstep : ∀ b, a.step (.createFile name) b = a := fun b => by
      cases b <;> simp [AbsDir.step, AbsDir.create, hh]
    rw [hstep]
    exact ha
  | error f =>
    rw [createFileLeaf_error, Volume.stream_setStream_self]
    obtain ⟨-, -, hadd, hsame⟩ := createFileEntry_step (.inl hname) h.zeroTail h.noOrphan
    cases hr : (createFileEntry (v.stream d) name).1 with
    | error f' =>
      rw [dirNames, hsame ⟨f', hr⟩]
      exact ha
    | ok x =>
      obtain ⟨e, pre, post, h₁, h₂, he, -⟩ := hadd x hr
      rw [dirNames, h₁] at ha
      have hh : a.holds name = false := by
        rw [AbsDir.holds_of_perm ha, List.any_eq_false]
        intro n hn
        obtain ⟨y, hy, rfl⟩ := List.mem_map.mp hn
        simp [findEntry_error hfind y (by rw [h₁]; exact hy)]
      have hx : (Except.bind (.ok x) DirEntry.toFile).isOk = true := by
        simp [Except.bind, DirEntry.toFile, createFileEntry_ok_isDir hr, Except.isOk, Except.toBool]
      rw [hx, AbsDir.step, AbsDir.create, dif_neg (by simp [hh]), dirNames, h₂, List.map_append, List.map_cons, he]
      exact List.perm_middle.trans (.cons _ (by rwa [List.map_append] at ha))

/-- The last step of `remove` on an entry `find_entry` found fails only where it changes nothing. -/
theorem removeEntry_error {v : Volume} {d : Option Nat} {name : String} {e : DirEntry} {f : Fault}
    (hfind : findEntry (v.stream d) name = .ok e) (h : (removeEntry v d e).1 = .error f) : (removeEntry v d e).2 = v := by
  obtain ⟨t, s, dd, hs, -, -, -, -, rfl⟩ := entryAt_of_findEntry hfind
  revert h
  unfold removeEntry
  split
  · exact fun _ => rfl
  · exact fun _ => rfl
  · simp only [Volume.stream_freeChain]
    rw [markLoop_entryAt dd hs]
    exact fun h => nomatch h

/-- `remove` of a name of one component, in a directory whose names are unique, is the abstract call. -/
theorem remove_refines {v : Volume} {d : Option Nat} {name : String} {a : AbsDir} (hs : '/' ∉ name.data)
    (hu : NamesUnique (v.stream d)) (ha : (dirNames (v.stream d)).Perm a.names) :
    (dirNames ((remove v d name).2.stream d)).Perm (a.step (.remove name) (remove v d name).1.isOk).names := by
  cases hfind : findEntry (v.stream d) name with
  | error f =>
    rw [remove, walk_of_not_mem _ hs, hfind]
    exact ha
  | ok e =>
    rw [remove_of_not_mem hs hfind]
    cases hr : (removeEntry v d e).1 with
    | error f =>
      rw [removeEntry_error hfind hr]
      exact ha
    | ok u =>
      obtain ⟨-, hv, -⟩ := removeEntry_ok hr
      obtain ⟨hn, -⟩ := findIn_ok hfind
      obtain ⟨t, s, dd, hst, hdec, hfree, hvol, hend, rfl⟩ := entryAt_of_findEntry hfind
      obtain ⟨pre, post, h₁, h₂⟩ := yielded_of_removesEntry (removesEntry_markRange hst hdec hfree hvol hend)
      rw [NamesUnique, h₁] at hu
      have hf := ha.filter fun m => !eqIgnoreAsciiCase m name
      rw [dirNames, h₁, List.map_append, List.map_cons,
        filter_unique (by rw [← List.map_cons, ← List.map_append]; exact List.pairwise_map.mpr hu) hn] at hf
      rw [hv, markLoop_entryAt dd hst, Volume.stream_setStream_self, dirNames, h₂, List.map_append]
      exact hf

/-! ## Whole runs -/

/-- One call of a run is the abstract call, and keeps what every state of a run keeps. -/
theorem Call.exec_refines {v : Volume} {d : Option Nat} {c : Call} {a : AbsDir} (hc : c.Good)
    (h : RunInv (v.stream d)) (ha : (dirNames (v.stream d)).Perm a.names) :
    RunInv ((c.exec d v).2.stream d) ∧ (dirNames ((c.exec d v).2.stream d)).Perm (a.step c (c.exec d v).1).names := by
  cases c with
  | createFile name =>
    dsimp only [Call.exec]
    exact ⟨h.createFile (.inl hc.1) hc.2, createFile_refines hc.1 hc.2 h ha⟩
  | remove name =>
    dsimp only [Call.exec]
    exact ⟨h.remove hc, remove_refines hc h.unique ha⟩

theorem execCalls_refines_of {d : Option Nat} : ∀ {cs : List Call} {v : Volume} {a : AbsDir},
    (∀ c ∈ cs, c.Good) → RunInv (v.stream d) → (dirNames (v.stream d)).Perm a.names →
      (dirNames ((execCalls d v cs).2.stream d)).Perm (a.run cs (execCalls d v cs).1).names
  | [], _, _, _, _, ha => ha
  | c :: cs, v, a, hcs, h, ha =>
    let hstep := Call.exec_refines (hcs c (List.mem_cons_self _ _)) h ha
    @execCalls_refines_of d cs _ (a.step c (c.exec d v).1) (fun c' hc' => hcs c' (List.mem_cons_of_mem _ hc'))
      hstep.1 hstep.2

/-- Every run of `create_file` and `remove` calls on a directory of zero slots, each call of a name of one
component and every name created a good one, each call succeeding or failing, leaves the directory holding the names
of the abstract run told the same outcomes, in some order. -/
theorem execCalls_refines {v : Volume} {d : Option Nat} {n : Nat} {cs : List Call}
    (h : (v.stream d).slots = List.replicate n zeroSlot) (hcs : ∀ c ∈ cs, c.Good) :
    (dirNames ((execCalls d v cs).2.stream d)).Perm (AbsDir.empty.run cs (execCalls d v cs).1).names :=
  execCalls_refines_of hcs (runInv_of_replicate h) (by rw [dirNames, yielded_replicate h]; exact .nil)

theorem good_calls_ab : ∀ c ∈ [Call.createFile "a", .createFile "B", .remove "A"], c.Good := by
  simp only [List.mem_cons, List.mem_singleton, List.not_mem_nil, or_false]
  rintro c (rfl | rfl | rfl)
  · exact ⟨⟨by decide, by decide, by decide, by decide, by decide⟩, by decide⟩
  · exact ⟨⟨by decide, by decide, by decide, by decide, by decide⟩, by decide⟩
  · exact (by decide : '/' ∉ "A".data)

theorem execCalls_refines_ab :
    let v : Volume := ⟨⟨List.replicate 6 zeroSlot, none⟩, fun _ => ⟨[], some 1⟩, []⟩
    let cs := [Call.createFile "a", .createFile "B", .remove "A"]
    (v.stream none).slots = List.replicate 6 zeroSlot ∧ (∀ c ∈ cs, c.Good) ∧
      (dirNames ((execCalls none v cs).2.stream none)).Perm (AbsDir.empty.run cs (execCalls none v cs).1).names :=
  ⟨rfl, good_calls_ab, execCalls_refines rfl good_calls_ab⟩

/-! ## Lookups -/

/-- `find_entry` returns the first entry the iterator yields with the name. -/
theorem findEntry_of_yielded {st : DirStream} {name : String} {pre post : List DirEntry} {e : DirEntry}
    (h : yielded (DirIter.items st) = pre ++ e :: post) (hpre : ∀ x ∈ pre, eqIgnoreAsciiCase x.fileName name = false)
    (he : eqIgnoreAsciiCase e.fileName name = true) : findEntry st name = .ok e := by
  rw [items_eq_iterSpec, yielded_iterSpec] at h
  rw [findEntry, items_eq_iterSpec, iterSpec_eq, h, List.map_append, List.append_assoc, findIn_map_ok_append hpre,
    List.map_cons, List.cons_append, findIn, if_pos he]

/-- Where names are unique, `find_entry` returns the entry that has the name. -/
theorem findEntry_of_unique {st : DirStream} {name : String} {e : DirEntry} (hu : NamesUnique st)
    (he : e ∈ yielded (DirIter.items st)) (hn : eqIgnoreAsciiCase e.fileName name = true) : findEntry st name = .ok e := by
  obtain ⟨pre, post, h⟩ := List.append_of_mem he
  rw [NamesUnique, h] at hu
  refine findEntry_of_yielded h (fun x hx => ?_) hn
  rw [← eqIgnoreAsciiCase_congr hn]
  exact (List.pairwise_append.mp hu).2.2 x hx e (List.mem_cons_self _ _)

theorem toFile_of_data {e x : DirEntry} (h : e.data = x.data) : e.toFile = x.toFile := by
  simp only [DirEntry.toFile, DirEntry.isDir, DirEntry.firstCluster, h]

/-- A `create_file` that succeeds on a good name of one component no entry has, in a directory that keeps what every
state of a run keeps, adds one entry with the name: a file with no cluster, whose file is the one returned. -/
theorem createFile_adds {v : Volume} {d : Option Nat} {name : String} {f : Fault} {x : File} (hname : GoodName name)
    (hs : '/' ∉ name.data) (h : RunInv (v.stream d)) (hnew : findEntry (v.stream d) name = .error f)
    (hok : (createFile v d name).1 = .ok x) :
    ∃ e pre post, yielded (DirIter.items (v.stream d)) = pre ++ post ∧
      yielded (DirIter.items ((createFile v d name).2.stream d)) = pre ++ e :: post ∧ e.fileName = name ∧
      e.toFile = .ok x ∧ e.isDir = false ∧ e.firstCluster = none ∧ (createFile v d name).2.freed = v.freed := by
  rw [createFile, walk_of_not_mem _ hs, hnew, createFileLeaf_error] at hok ⊢
  cases hy : (createFileEntry (v.stream d) name).1 with
  | error g =>
    rw [hy] at hok
    cases hok
  | ok y =>
    rw [hy] at hok
    obtain ⟨e, pre, post, h₁, h₂, he, hdata⟩ := (createFileEntry_step (.inl hname) h.zeroTail h.noOrphan).2.2.1 y hy
    refine ⟨e, pre, post, h₁, by rw [Volume.stream_setStream_self, h₂], he, (toFile_of_data hdata).trans hok, ?_, ?_,
      Volume.freed_setStream _ _ _⟩
    · rw [DirEntry.isDir, hdata]
      exact createFileEntry_ok_isDir hy
    · rw [DirEntry.firstCluster, hdata]
      exact createFileEntry_ok_firstCluster hy

/-- In every state a run reaches, after `create_file` of a good name of one component succeeds, `open_file` of the
name gives the file `create_file` returned. -/
theorem createFile_openFile {v : Volume} {d : Option Nat} {name : String} {f : File} (h : Reachable d v)
    (hname : GoodName name) (hs : '/' ∉ name.data) (hok : (createFile v d name).1 = .ok f) :
    openFile (createFile v d name).2 d name = .ok f := by
  rw [openFile, walk_of_not_mem _ hs]
  cases hfind : findEntry (v.stream d) name with
  | ok e =>
    rw [createFile, walk_of_not_mem _ hs, hfind] at hok ⊢
    rw [openFileLeaf, createFileLeaf, hfind]
    exact hok
  | error f' =>
    obtain ⟨e, pre, post, h₁, h₂, he, hfile, -⟩ := createFile_adds hname hs h.runInv hfind hok
    have hpre : ∀ y ∈ pre, eqIgnoreAsciiCase y.fileName name = false :=
      fun y hy => findEntry_error hfind y (by rw [h₁]; exact List.mem_append_left _ hy)
    rw [openFileLeaf, findEntry_of_yielded h₂ hpre (by rw [he]; exact eqIgnoreAsciiCase_self name)]
    exact hfile

theorem createFile_openFile_a :
    let v : Volume := ⟨⟨List.replicate 6 zeroSlot, none⟩, fun _ => ⟨[], some 1⟩, []⟩
    let f : File := ⟨none, rawEntry ⟨[65, 32, 32, 32, 32, 32, 32, 32, 32, 32, 32], rfl⟩⟩
    Reachable none v ∧ GoodName "a" ∧ '/' ∉ "a".data ∧ (createFile v none "a").1 = .ok f ∧
      openFile (createFile v none "a").2 none "a" = .ok f :=
  have hname : GoodName "a" := ⟨by decide, by decide, by decide, by decide, by decide⟩
  have hok : (createFile ⟨⟨List.replicate 6 zeroSlot, none⟩, fun _ => ⟨[], some 1⟩, []⟩ none "a").1 =
      .ok ⟨none, rawEntry ⟨[65, 32, 32, 32, 32, 32, 32, 32, 32, 32, 32], rfl⟩⟩ := by decide
  ⟨.init rfl, hname, by decide, hok, createFile_openFile (.init rfl) hname (by decide) hok⟩

/-- `find_entry` of a name the entry `e` does not have sees the items with `e` taken out as it saw them with it. -/
theorem findIn_erase {n : String} {e : DirEntry} (he : eqIgnoreAsciiCase e.fileName n = false) :
    ∀ (pre post : List (Except Fault DirEntry)), findIn n (pre ++ .ok e :: post) = findIn n (pre ++ post)
  | [], post => by rw [List.nil_append, findIn, if_neg (by simp [he]), List.nil_append]
  | .error _ :: _, _ => rfl
  | .ok x :: pre, post => by
    rw [List.cons_append, List.cons_append, findIn, findIn, findIn_erase he pre post]

/-- After `remove` of a name of one component succeeds, the lookup of every name not equal to it up to ASCII case
gives what it gave before, entry or error, in every volume. -/
theorem remove_findEntry_other {v : Volume} {d : Option Nat} {name n : String} (hs : '/' ∉ name.data)
    (hok : (remove v d name).1 = .ok ()) (hn : eqIgnoreAsciiCase n name = false) :
    findEntry ((remove v d name).2.stream d) n = findEntry (v.stream d) n := by
  cases hfind : findEntry (v.stream d) name with
  | error f =>
    rw [remove, walk_of_not_mem _ hs, hfind] at hok
    cases hok
  | ok e =>
    rw [remove_of_not_mem hs hfind] at hok ⊢
    obtain ⟨-, hv, -⟩ := removeEntry_ok hok
    obtain ⟨he, -⟩ := findIn_ok hfind
    obtain ⟨t, s, dd, hst, hdec, hfree, hvol, hend, rfl⟩ := entryAt_of_findEntry hfind
    obtain ⟨pre, post, h₁, h₂⟩ := (removesEntry_markRange hst hdec hfree hvol hend).items
    rw [hv, markLoop_entryAt dd hst, Volume.stream_setStream_self, findEntry, findEntry, h₁, h₂,
      findIn_erase (by rw [eqIgnoreAsciiCase_comm, eqIgnoreAsciiCase_congr he, hn])]

theorem remove_findEntry_other_b :
    let v : Volume := (createFile (createFile ⟨⟨List.replicate 6 zeroSlot, none⟩, fun _ => ⟨[], some 1⟩, []⟩
      none "a").2 none "b").2
    '/' ∉ "a".data ∧ (remove v none "a").1 = .ok () ∧ eqIgnoreAsciiCase "b" "a" = false ∧
      findEntry ((remove v none "a").2.stream none) "b" = findEntry (v.stream none) "b" :=
  have h : '/' ∉ "a".data ∧ (remove (createFile (createFile ⟨⟨List.replicate 6 zeroSlot, none⟩,
      fun _ => ⟨[], some 1⟩, []⟩ none "a").2 none "b").2 none "a").1 = .ok () ∧ eqIgnoreAsciiCase "b" "a" = false :=
    ⟨by decide, by decide, by decide⟩
  ⟨h.1, h.2.1, h.2.2, remove_findEntry_other h.1 h.2.1 h.2.2⟩

/-- In every state a run reaches, after `remove` of a name of one component succeeds, `find_entry` of the name
fails. -/
theorem remove_findEntry {v : Volume} {d : Option Nat} {name : String} (h : Reachable d v) (hs : '/' ∉ name.data)
    (hok : (remove v d name).1 = .ok ()) : ∃ f, findEntry ((remove v d name).2.stream d) name = .error f := by
  have hr := remove_refines (a := ⟨dirNames (v.stream d), List.pairwise_map.mpr h.runInv.unique⟩) hs
    h.runInv.unique (List.Perm.refl _)
  rw [hok] at hr
  refine findEntry_error_of_forall fun x hx => ?_
  have hm := hr.mem_iff.mp (List.mem_map_of_mem DirEntry.fileName hx)
  simp only [AbsDir.step, AbsDir.remove, Except.isOk, Except.toBool, List.mem_filter, Bool.not_eq_true'] at hm
  exact hm.2

theorem remove_findEntry_a :
    let v : Volume := (createFile ⟨⟨List.replicate 6 zeroSlot, none⟩, fun _ => ⟨[], some 1⟩, []⟩ none "a").2
    Reachable none v ∧ '/' ∉ "a".data ∧ (remove v none "a").1 = .ok () ∧
      ∃ f, findEntry ((remove v none "a").2.stream none) "a" = .error f :=
  have hreach : Reachable none (createFile ⟨⟨List.replicate 6 zeroSlot, none⟩, fun _ => ⟨[], some 1⟩, []⟩
      none "a").2 := .create (.inl ⟨by decide, by decide, by decide, by decide, by decide⟩) (by decide) (.init rfl)
  have hok : (remove (createFile ⟨⟨List.replicate 6 zeroSlot, none⟩, fun _ => ⟨[], some 1⟩, []⟩ none "a").2
      none "a").1 = .ok () := by decide
  ⟨hreach, by decide, hok, remove_findEntry hreach (by decide) hok⟩

/-- In every state a run reaches, `create_file` of a good name of one component, succeeding or failing, keeps the
entry `find_entry` found for every name. -/
theorem createFile_findEntry_other {v : Volume} {d : Option Nat} {name n : String} {e : DirEntry}
    (h : Reachable d v) (hname : GoodName name) (hs : '/' ∉ name.data) (hfind : findEntry (v.stream d) n = .ok e) : findEntry ((createFile v d name).2.stream d) n = .ok e := by
  obtain ⟨hmem, he⟩ := mem_of_findEntry hfind
  have hu := (h.runInv.createFile (.inl hname) hs).unique
  refine findEntry_of_unique hu ?_ he
  rcases (createFile_step (.inl hname) hs h.runInv.zeroTail h.runInv.noOrphan).2.2 with hy | ⟨e', pre', post', h₁, h₂, he', -⟩
  · rwa [hy]
  · rw [h₂]
    rw [h₁] at hmem
    rcases List.mem_append.mp hmem with hm | hm
    · exact List.mem_append_left _ hm
    · exact List.mem_append_right _ (List.mem_cons_of_mem _ hm)

theorem createFile_findEntry_other_b :
    let v : Volume := (createFile ⟨⟨List.replicate 6 zeroSlot, none⟩, fun _ => ⟨[], some 1⟩, []⟩ none "a").2
    let e : DirEntry := ⟨rawEntry ⟨[65, 32, 32, 32, 32, 32, 32, 32, 32, 32, 32], rfl⟩, [97], (0, 64)⟩
    Reachable none v ∧ GoodName "b" ∧ '/' ∉ "b".data ∧ findEntry (v.stream none) "a" = .ok e ∧
      findEntry ((createFile v none "b").2.stream none) "a" = .ok e :=
  have hreach : Reachable none (createFile ⟨⟨List.replicate 6 zeroSlot, none⟩, fun _ => ⟨[], some 1⟩, []⟩
      none "a").2 := .create (.inl ⟨by decide, by decide, by decide, by decide, by decide⟩) (by decide) (.init rfl)
  have hname : GoodName "b" := ⟨by decide, by decide, by decide, by decide, by decide⟩
  have hfind : findEntry ((createFile ⟨⟨List.replicate 6 zeroSlot, none⟩, fun _ => ⟨[], some 1⟩, []⟩
      none "a").2.stream none) "a" = .ok ⟨rawEntry ⟨[65, 32, 32, 32, 32, 32, 32, 32, 32, 32, 32], rfl⟩, [97], (0, 64)⟩ :=
    by decide
  ⟨hreach, hname, by decide, hfind, createFile_findEntry_other hreach hname (by decide) hfind⟩

/-! ## What the calls of a run fail with -/

/-- Every entry the directory of a run yields is a file: `create_file_entry` writes files only. -/
theorem Reachable.not_isDir {d : Option Nat} {v : Volume} (h : Reachable d v) :
    ∀ e ∈ yielded (DirIter.items (v.stream d)), e.isDir = false := by
  induction h with
  | init h =>
    rw [yielded_replicate h]
    exact fun _ he => nomatch he
  | @create v name hname hs hr ih =>
    rw [createFile, walk_of_not_mem _ hs]
    cases hfind : findEntry (v.stream d) name with
    | ok e => exact ih
    | error f =>
      rw [createFileLeaf_error, Volume.stream_setStream_self]
      obtain ⟨-, -, hadd, hsame⟩ := createFileEntry_step hname hr.runInv.zeroTail hr.runInv.noOrphan
      cases hx : (createFileEntry (v.stream d) name).1 with
      | error g =>
        rw [hsame ⟨g, hx⟩]
        exact ih
      | ok x =>
        obtain ⟨e, pre, post, h₁, h₂, -, hdata⟩ := hadd x hx
        rw [h₁] at ih
        rw [h₂]
        intro y hy
        rcases List.mem_append.mp hy with hy | hy
        · exact ih y (List.mem_append_left _ hy)
        · rcases List.mem_cons.mp hy with rfl | hy
          · rw [DirEntry.isDir, hdata]
            exact createFileEntry_ok_isDir hx
          · exact ih y (List.mem_append_right _ hy)
  | @remove v name hs hr ih =>
    rcases (remove_step hs hr.runInv.zeroTail hr.runInv.noOrphan).2.2 with hy | ⟨e, pre, post, h₁, h₂⟩
    · rwa [hy]
    · rw [h₁] at ih
      rw [h₂]
      intro y hy
      rcases List.mem_append.mp hy with hy | hy
      · exact ih y (List.mem_append_left _ hy)
      · exact ih y (List.mem_append_right _ (List.mem_cons_of_mem _ hy))

/-- `find_entry` fails only when no entry has the name, or by reading past the end of a directory with no
terminator. -/
theorem findEntry_error_cases {st : DirStream} {name : String} {f : Fault} (h : findEntry st name = .error f) :
    f = notFoundError ∨ f = eofError := by
  have hno := findEntry_error h
  rw [items_eq_iterSpec, yielded_iterSpec] at hno
  rw [findEntry, items_eq_iterSpec, iterSpec_eq, findIn_map_ok_append hno] at h
  split at h
  · cases h
    exact .inl rfl
  · cases h
    exact .inr rfl

theorem writeSlot_error {st : DirStream} {i : Nat} {s : Slot} {f : Fault} (h : st.writeSlot i s = .error f) :
    f = writeZeroError := by
  unfold DirStream.writeSlot at h
  split at h
  · cases h
  · split at h
    · split at h
      · cases h
      · cases h
        rfl
    · cases h
      rfl

/-- A run of slot writes fails only at the end of the root region. -/
theorem writeSlots_error : ∀ {st : DirStream} {i : Nat} {ws : List Slot} {f : Fault} {st' : DirStream},
    writeSlots st i ws = (.error f, st') → f = writeZeroError
  | _, _, [], _, _, h => by cases h
  | st, i, w :: ws, f, st', h => by
    unfold writeSlots at h
    split at h
    · cases h
      exact writeSlot_error ‹_›
    · exact writeSlots_error h

/-- `create_file_entry` of a good name fails only by reading past the end of a directory with no terminator and no
free room, or by writing past the end of the root region. -/
theorem createFileEntry_error {st : DirStream} {name : String} {f : Fault} (hname : GoodName name)
    (h : (createFileEntry st name).1 = .error f) : f = eofError ∨ f = writeZeroError := by
  obtain ⟨sn, hsn, -, -⟩ := hname.genShortName
  cases hfree : findFreeEntries st (numLfnEntries (utf8 name).length + 1) with
  | error g =>
    rw [createFileEntry_of_findFree_error (hname.length_utf8 ▸ hname.le) hfree] at h
    cases h
    exact .inl (findFreeLoop_error _ _ _ _ hfree)
  | ok start =>
    rw [createFileEntry_eq_writeSlots hname.length_encodeUtf16 (hname.length_utf8 ▸ hname.le) hfree hsn] at h
    cases hw : writeSlots st start (groupSlots name sn) with
    | mk r st' =>
      rw [hw] at h
      cases r with
      | ok u => cases h
      | error g =>
        cases h
        exact .inr (writeSlots_error hw)

/-- A last step of `remove` that succeeds on the entry `find_entry` found takes out that entry, frees its chain and
touches no other directory. -/
theorem removeEntry_spec {v : Volume} {d : Option Nat} {name : String} {e : DirEntry}
    (hfind : findEntry (v.stream d) name = .ok e) (hok : (removeEntry v d e).1 = .ok ()) :
    RemovesEntry (v.stream d) ((removeEntry v d e).2.stream d) e ∧
      (∀ d', d' ≠ d → (removeEntry v d e).2.stream d' = v.stream d') ∧
      (removeEntry v d e).2.freed = v.freed ++ e.firstCluster.toList := by
  obtain ⟨-, hv, -⟩ := removeEntry_ok hok
  obtain ⟨t, s, dd, hst, hdec, hfree, hvol, hend, rfl⟩ := entryAt_of_findEntry hfind
  rw [hv, markLoop_entryAt dd hst]
  refine ⟨?_, fun d' hd' => by rw [Volume.stream_setStream_of_ne _ hd', Volume.stream_freeChain], by simp⟩
  rw [Volume.stream_setStream_self]
  exact removesEntry_markRange hst hdec hfree hvol hend

/-- The last step of `remove` on a file `find_entry` found succeeds: nothing is checked, and the slots it marks
exist. -/
theorem removeEntry_file_ok {v : Volume} {d : Option Nat} {name : String} {e : DirEntry}
    (hfind : findEntry (v.stream d) name = .ok e) (hdir : e.isDir = false) : (removeEntry v d e).1 = .ok () := by
  obtain ⟨t, s, dd, hst, -, -, -, -, rfl⟩ := entryAt_of_findEntry hfind
  unfold removeEntry
  rw [if_neg (by simp [hdir])]
  simp only [Volume.stream_freeChain]
  rw [markLoop_entryAt dd hst]

/-- `remove` of a name of one component whose entry is a file. -/
theorem remove_file {v : Volume} {d : Option Nat} {name : String} {e : DirEntry} (hs : '/' ∉ name.data)
    (hfind : findEntry (v.stream d) name = .ok e) (hdir : e.isDir = false) :
    (remove v d name).1 = .ok () ∧ RemovesEntry (v.stream d) ((remove v d name).2.stream d) e ∧
      (remove v d name).2.freed = v.freed ++ e.firstCluster.toList := by
  have hok := removeEntry_file_ok hfind hdir
  rw [remove_of_not_mem hs hfind]
  exact ⟨hok, (removeEntry_spec hfind hok).1, (removeEntry_spec hfind hok).2.2⟩

/-- In every state a run reaches, `create_file` of a good name and `remove` of a name, each of one component, never
panic. `create_file` fails only by reading past the end of a directory with no terminator and no free room
(`UnexpectedEof`) or by writing past the end of the root region (`WriteZero`); `remove` fails only when no entry has
the name (`NotFound`, or `UnexpectedEof` in a directory with no terminator): an entry it finds it removes. -/
theorem reachable_call_errors {v : Volume} {d : Option Nat} {name : String} {f : Fault} (h : Reachable d v)
    (hs : '/' ∉ name.data) :
    (GoodName name → (createFile v d name).1 = .error f → f = eofError ∨ f = writeZeroError) ∧
      ((remove v d name).1 = .error f → f = notFoundError ∨ f = eofError) := by
  have hfound : ∀ {e}, findEntry (v.stream d) name = .ok e → e.isDir = false := fun hfind =>
    h.not_isDir _ (mem_of_findEntry hfind).1
  constructor
  · intro hname
    rw [createFile, walk_of_not_mem _ hs]
    cases hfind : findEntry (v.stream d) name with
    | ok e =>
      intro hr
      have he : e.toFile = .error f := hr
      simp [DirEntry.toFile, hfound hfind] at he
    | error g =>
      rw [createFileLeaf_error]
      cases hx : (createFileEntry (v.stream d) name).1 with
      | error g' =>
        intro hr
        cases hr
        exact createFileEntry_error hname hx
      | ok x =>
        intro hr
        simp [Except.bind, DirEntry.toFile, createFileEntry_ok_isDir hx] at hr
  · cases hfind : findEntry (v.stream d) name with
    | error g =>
      rw [remove, walk_of_not_mem _ hs, hfind]
      intro hr
      cases hr
      exact findEntry_error_cases hfind
    | ok e =>
      rw [(remove_file hs hfind (hfound hfind)).1]
      exact fun hr => nomatch hr

theorem reachable_call_errors_overflow :
    let v : Volume := ⟨⟨[zeroSlot], none⟩, fun _ => ⟨[], some 1⟩, []⟩
    Reachable none v ∧ '/' ∉ "a".data ∧ GoodName "a" ∧ (createFile v none "a").1 = .error writeZeroError ∧
      (writeZeroError = eofError ∨ writeZeroError = writeZeroError) ∧ (remove v none "a").1 = .error notFoundError ∧
      (notFoundError = notFoundError ∨ notFoundError = eofError) :=
  have hreach : Reachable none ⟨⟨[zeroSlot], none⟩, fun _ => ⟨[], some 1⟩, []⟩ := .init (n := 1) rfl
  have hs : '/' ∉ "a".data := by decide
  have hname : GoodName "a" := ⟨by decide, by decide, by decide, by decide, by decide⟩
  have hc : (createFile ⟨⟨[zeroSlot], none⟩, fun _ => ⟨[], some 1⟩, []⟩ none "a").1 = .error writeZeroError := by
    decide
  have hr : (remove ⟨⟨[zeroSlot], none⟩, fun _ => ⟨[], some 1⟩, []⟩ none "a").1 = .error notFoundError := by decide
  ⟨hreach, hs, hname, hc, (reachable_call_errors hreach hs).1 hname hc, hr, (reachable_call_errors hreach hs).2 hr⟩

/-! ## Lookups after a run -/

/-- Every run of calls of `Reachable` from a state it reaches reaches a state. -/
theorem Reachable.execCalls {d : Option Nat} : ∀ {cs : List Call} {v : Volume}, Reachable d v → (∀ c ∈ cs, c.Good) →
    Reachable d (execCalls d v cs).2
  | [], _, h, _ => h
  | .createFile name :: _, _, h, hcs =>
    have hc : GoodName name ∧ '/' ∉ name.data := hcs _ (List.mem_cons_self _ _)
    (Reachable.create (.inl hc.1) hc.2 h).execCalls fun c hc' => hcs c (List.mem_cons_of_mem _ hc')
  | .remove name :: _, _, h, hcs =>
    have hc : '/' ∉ name.data := hcs _ (List.mem_cons_self _ _)
    (Reachable.remove hc h).execCalls fun c hc' => hcs c (List.mem_cons_of_mem _ hc')

/-- `find_entry` finds a name exactly when an entry the iterator yields has it, up to ASCII case. -/
theorem findEntry_isOk (st : DirStream) (name : String) :
    (findEntry st name).isOk = (dirNames st).any fun n => eqIgnoreAsciiCase n name := by
  rw [Bool.eq_iff_iff, List.any_eq_true]
  constructor
  · intro h
    cases hf : findEntry st name with
    | error f =>
      rw [hf] at h
      cases h
    | ok e => exact ⟨e.fileName, List.mem_map_of_mem _ (mem_of_findEntry hf).1, (mem_of_findEntry hf).2⟩
  · rintro ⟨n, hn, hmatch⟩
    obtain ⟨e, he, rfl⟩ := List.mem_map.mp hn
    obtain ⟨e', h'⟩ := findEntry_ok_of_mem he hmatch
    rw [h']
    rfl

/-- After every run of `create_file` and `remove` calls on a directory of zero slots, as in `execCalls_refines`,
`open_file` of a name of one component gives a file exactly when the abstract run holds the name. -/
theorem execCalls_openFile {v : Volume} {d : Option Nat} {n : Nat} {cs : List Call} {name : String}
    (h : (v.stream d).slots = List.replicate n zeroSlot) (hcs : ∀ c ∈ cs, c.Good) (hs : '/' ∉ name.data) :
    (openFile (execCalls d v cs).2 d name).isOk = (AbsDir.empty.run cs (execCalls d v cs).1).holds name := by
  have hr := (Reachable.init h).execCalls hcs
  rw [AbsDir.holds_of_perm (execCalls_refines_of hcs (runInv_of_replicate h)
    (by rw [dirNames, yielded_replicate h]; exact .nil)), ← findEntry_isOk, openFile, walk_of_not_mem _ hs]
  cases hf : findEntry ((execCalls d v cs).2.stream d) name with
  | error f => rfl
  | ok e =>
    have hdir := hr.not_isDir e (mem_of_findEntry hf).1
    simp [openFileLeaf, Except.bind, DirEntry.toFile, hdir, Except.isOk, Except.toBool]

theorem execCalls_openFile_b :
    let v : Volume := ⟨⟨List.replicate 6 zeroSlot, none⟩, fun _ => ⟨[], some 1⟩, []⟩
    let cs := [Call.createFile "a", .createFile "B", .remove "A"]
    (v.stream none).slots = List.replicate 6 zeroSlot ∧ (∀ c ∈ cs, c.Good) ∧ '/' ∉ "b".data ∧
      (openFile (execCalls none v cs).2 none "b").isOk = (AbsDir.empty.run cs (execCalls none v cs).1).holds "b" :=
  ⟨rfl, good_calls_ab, by decide, execCalls_openFile rfl good_calls_ab (by decide)⟩

/-! ## `create_file` then `remove` -/

/-- In every state a run reaches, `remove` of a name `create_file` has just added takes back exactly what it added:
it succeeds, the iterator yields the entries it yielded before the create, in the same order and with the same data,
long names and offset ranges, and no chain is freed. -/
theorem createFile_remove {v : Volume} {d : Option Nat} {name : String} {f : Fault} {x : File} (h : Reachable d v)
    (hname : GoodName name) (hs : '/' ∉ name.data) (hnew : findEntry (v.stream d) name = .error f)
    (hok : (createFile v d name).1 = .ok x) :
    (remove (createFile v d name).2 d name).1 = .ok () ∧
      yielded (DirIter.items ((remove (createFile v d name).2 d name).2.stream d)) =
        yielded (DirIter.items (v.stream d)) ∧
      (remove (createFile v d name).2 d name).2.freed = v.freed := by
  obtain ⟨e, pre, post, h₁, h₂, he, -, hdir, hcl, hfr⟩ := createFile_adds hname hs h.runInv hnew hok
  have hmem : e ∈ yielded (DirIter.items ((createFile v d name).2.stream d)) := by
    rw [h₂]
    exact List.mem_append_right _ (List.mem_cons_self _ _)
  have hfind := findEntry_of_unique (Reachable.create (.inl hname) hs h).runInv.unique hmem
    (by rw [he]; exact eqIgnoreAsciiCase_self name)
  obtain ⟨hr, hrem, hfreed⟩ := remove_file hs hfind hdir
  -- the new entry is the only one with the name, so `remove` takes out the entry the create put in
  have hne : e ∉ pre ++ post := fun hm => by
    have hn := findEntry_error hnew e (h₁ ▸ hm)
    rw [he, eqIgnoreAsciiCase_self] at hn
    cases hn
  obtain ⟨pre', post', h₁', h₂'⟩ := yielded_of_removesEntry hrem
  rw [h₂] at h₁'
  obtain ⟨rfl, -, rfl⟩ := (List.append_cons_inj_of_not_mem (fun hm => hne (List.mem_append_left _ hm))
    (fun hm => hne (List.mem_append_right _ hm))).mp h₁'
  refine ⟨hr, h₂'.trans h₁.symm, ?_⟩
  rw [hfreed, hcl, hfr, Option.toList_none, List.append_nil]

theorem createFile_remove_a :
    let v : Volume := ⟨⟨List.replicate 6 zeroSlot, none⟩, fun _ => ⟨[], some 1⟩, []⟩
    let x : File := ⟨none, rawEntry ⟨[65, 32, 32, 32, 32, 32, 32, 32, 32, 32, 32], rfl⟩⟩
    Reachable none v ∧ GoodName "a" ∧ '/' ∉ "a".data ∧ findEntry (v.stream none) "a" = .error notFoundError ∧
      (createFile v none "a").1 = .ok x ∧
      (remove (createFile v none "a").2 none "a").1 = .ok () ∧
      yielded (DirIter.items ((remove (createFile v none "a").2 none "a").2.stream none)) =
        yielded (DirIter.items (v.stream none)) ∧
      (remove (createFile v none "a").2 none "a").2.freed = v.freed :=
  have hname : GoodName "a" := ⟨by decide, by decide, by decide, by decide, by decide⟩
  have hnew : findEntry (Volume.stream ⟨⟨List.replicate 6 zeroSlot, none⟩, fun _ => ⟨[], some 1⟩, []⟩ none) "a" =
      .error notFoundError := by decide
  have hok : (createFile ⟨⟨List.replicate 6 zeroSlot, none⟩, fun _ => ⟨[], some 1⟩, []⟩ none "a").1 =
      .ok ⟨none, rawEntry ⟨[65, 32, 32, 32, 32, 32, 32, 32, 32, 32, 32], rfl⟩⟩ := by decide
  ⟨.init rfl, hname, by decide, hnew, hok, createFile_remove (.init rfl) hname (by decide) hnew hok⟩

/-! ## `remove` along a path -/

theorem removeLeaf_error {v : Volume} {d : Option Nat} {c : String} {f : Fault}
    (h : (removeLeaf v d c (findEntry (v.stream d) c)).1 = .error f) :
    (removeLeaf v d c (findEntry (v.stream d) c)).2 = v := by
  cases hfind : findEntry (v.stream d) c with
  | error g => rfl
  | ok e =>
    rw [hfind] at h
    exact removeEntry_error hfind h

/-- A `remove` that fails leaves the volume as it was, in every volume and for every path: the walk changes nothing
before its last step, and the last step fails only before it writes. -/
theorem remove_error {v : Volume} {d : Option Nat} {path : String} {f : Fault} (h : (remove v d path).1 = .error f) :
    (remove v d path).2 = v := by
  rw [remove, walk_eq_walkComps, walkComps_eq_descend] at h ⊢
  cases hd : descend v d (pathComponents path).dropLast with
  | error g => rfl
  | ok d' =>
    rw [hd] at h
    exact removeLeaf_error h

theorem remove_error_missing :
    let v : Volume := ⟨⟨List.replicate 2 zeroSlot, none⟩, fun _ => ⟨[], some 1⟩, []⟩
    (remove v none "/a/b").1 = .error notFoundError ∧ (remove v none "/a/b").2 = v :=
  have h : (remove ⟨⟨List.replicate 2 zeroSlot, none⟩, fun _ => ⟨[], some 1⟩, []⟩ none "/a/b").1 =
      .error notFoundError := by decide
  ⟨h, remove_error h⟩

/-- `is_empty` says true exactly when the iterator yields no error and only entries named `.` or `..`. -/
theorem isEmptyIn_eq_true : ∀ {items : List (Except Fault DirEntry)},
    isEmptyIn items = .ok true ↔ ∀ r ∈ items, ∃ y, r = .ok y ∧ (y.fileName = "." ∨ y.fileName = "..")
  | [] => by simp [isEmptyIn]
  | .error f :: rest => by simp [isEmptyIn]
  | .ok x :: rest => by
    rw [isEmptyIn, List.forall_mem_cons, ← isEmptyIn_eq_true]
    by_cases h₁ : x.fileName = "." <;> by_cases h₂ : x.fileName = ".." <;> simp [h₁, h₂]

/-- Every `remove` that succeeds, in every volume and for every path, went into every component of the path but
the last, and took out one entry that `find_entry` found under the last component in the directory it got to: a file,
or a directory the check found holding only `.` and `..`. It marked that entry's slots free, freed that entry's chain
and nothing else, and left every other directory as it was. -/
theorem remove_ok {v : Volume} {d : Option Nat} {path : String} (h : (remove v d path).1 = .ok ()) :
    ∃ d' e, descend v d (pathComponents path).dropLast = .ok d' ∧
      findEntry (v.stream d') ((pathComponents path).getLastD "") = .ok e ∧
      (e.isDir = true → ∀ r ∈ DirIter.items (v.stream e.firstCluster),
        ∃ y, r = .ok y ∧ (y.fileName = "." ∨ y.fileName = "..")) ∧
      RemovesEntry (v.stream d') ((remove v d path).2.stream d') e ∧
      (∀ d'', d'' ≠ d' → (remove v d path).2.stream d'' = v.stream d'') ∧
      (remove v d path).2.freed = v.freed ++ e.firstCluster.toList := by
  rw [remove, walk_eq_walkComps, walkComps_eq_descend] at h ⊢
  cases hd : descend v d (pathComponents path).dropLast with
  | error f =>
    rw [hd] at h
    cases h
  | ok d' =>
    rw [hd] at h
    dsimp only at h ⊢
    cases hfind : findEntry (v.stream d') ((pathComponents path).getLastD "") with
    | error f =>
      rw [hfind] at h
      cases h
    | ok e =>
      rw [hfind] at h
      exact ⟨d', e, rfl, hfind, fun hd => isEmptyIn_eq_true.mp ((removeEntry_ok h).2.2 hd), removeEntry_spec hfind h⟩

theorem remove_ok_slashes :
    let v : Volume := (createFile ⟨⟨List.replicate 6 zeroSlot, none⟩, fun _ => ⟨[], some 1⟩, []⟩ none "a").2
    (remove v none "/a/").1 = .ok () ∧
      ∃ d' e, descend v none (pathComponents "/a/").dropLast = .ok d' ∧
        findEntry (v.stream d') ((pathComponents "/a/").getLastD "") = .ok e ∧
        (e.isDir = true → ∀ r ∈ DirIter.items (v.stream e.firstCluster),
          ∃ y, r = .ok y ∧ (y.fileName = "." ∨ y.fileName = "..")) ∧
        RemovesEntry (v.stream d') ((remove v none "/a/").2.stream d') e ∧
        (∀ d'', d'' ≠ d' → (remove v none "/a/").2.stream d'' = v.stream d'') ∧
        (remove v none "/a/").2.freed = v.freed ++ e.firstCluster.toList :=
  have hok : (remove (createFile ⟨⟨List.replicate 6 zeroSlot, none⟩, fun _ => ⟨[], some 1⟩, []⟩ none "a").2 none
      "/a/").1 = .ok () := by decide
  ⟨hok, remove_ok hok⟩

end FatDir
