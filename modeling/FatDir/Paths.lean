import FatDir.Volume

/-!
# Paths as lists of components

The documentation reads a path as its non-empty `/`-separated components (`pathComponents`). `split_path` trims the
slashes at both ends and cuts at the first `/` left; the walks go down one component at a time.

* `splitPath_cases`: what `split_path` returns, in components: nothing and the empty name, the one component, or the
  first component and a rest that holds the others.
* `walk_eq_walkComps`: every walk is the walk over the components of its path (`walkComps`), so two paths with the
  same components give the same result and leave the same volume (`walks_of_components_eq`).
* `walk_kind_panics`: a component the walk goes into that names a file, or a last component of the wrong kind for
  the walk, reaches the assertion of `to_dir` or `to_file`.
-/

namespace FatDir

/-! ## Components -/

/-- The non-empty `/`-separated pieces of a list of characters. -/
def components (cs : List Char) : List (List Char) := (cs.splitOn '/').filter fun c => !c.isEmpty

/-- The non-empty `/`-separated components of a path. -/
def pathComponents (path : String) : List String := (components path.data).map String.mk

theorem not_beq_slash_of_not_mem {w : List Char} (h : '/' ∉ w) : ∀ x ∈ w, ¬(x == '/') = true :=
  fun _ hx hs => h (beq_iff_eq.mp hs ▸ hx)

/-- Induction over the words of a list of characters: a list with no `/`, or a word, a `/` and a shorter list. -/
theorem words_induction {motive : List Char → Prop} (word : ∀ w, '/' ∉ w → motive w)
    (sep : ∀ w r, '/' ∉ w → motive r → motive (w ++ '/' :: r)) (l : List Char) : motive l := by
  have hw : '/' ∉ l.takeWhile (· != '/') := fun hm => by simpa using List.mem_takeWhile_imp hm
  have hl := List.takeWhile_append_dropWhile (· != '/') l
  rcases hr : l.dropWhile (· != '/') with _ | ⟨x, r⟩
  · rw [hr, List.append_nil] at hl
    exact hl ▸ word _ hw
  · have hx : x = '/' := by simpa [hr] using List.head?_dropWhile_not (· != '/') l
    rw [hr, hx] at hl
    have : r.length < l.length := by rw [← hl, List.length_append, List.length_cons]; omega
    exact hl ▸ sep _ _ hw (words_induction word sep r)
termination_by l.length

theorem components_of_not_mem {w : List Char} (h : '/' ∉ w) : components w = if w = [] then [] else [w] := by
  rw [components, List.splitOn, List.splitOnP_eq_single _ _ (not_beq_slash_of_not_mem h)]
  cases w <;> simp

theorem components_word_append {w : List Char} (h : '/' ∉ w) (r : List Char) :
    components (w ++ '/' :: r) = components w ++ components r := by
  rw [components, List.splitOn, List.splitOnP_first _ _ (not_beq_slash_of_not_mem h) '/' (beq_self_eq_true _),
    List.filter_cons, ← List.splitOn, ← components, components_of_not_mem h]
  cases w <;> simp

/-- A `/` splits the components. -/
theorem components_append (l₁ l₂ : List Char) : components (l₁ ++ '/' :: l₂) = components l₁ ++ components l₂ := by
  induction l₁ using words_induction generalizing l₂ with
  | word w hw => exact components_word_append hw l₂
  | sep w r hw ih => rw [List.append_assoc, List.cons_append, components_word_append hw, ih,
      components_word_append hw, List.append_assoc]

theorem components_eq_nil_iff (l : List Char) : components l = [] ↔ ∀ c ∈ l, c = '/' := by
  induction l using words_induction with
  | word w hw =>
    rw [components_of_not_mem hw]
    cases w with
    | nil => simp
    | cons c w => simp [show c ≠ '/' from fun h => hw (h ▸ List.mem_cons_self _ _)]
  | sep w r hw ih =>
    rw [components_word_append hw, List.append_eq_nil, ih, components_of_not_mem hw]
    cases w with
    | nil => simp
    | cons c w => simp [show c ≠ '/' from fun h => hw (h ▸ List.mem_cons_self _ _)]

/-! ## What `split_path` returns -/

theorem components_dropWhile (l : List Char) : components (l.dropWhile (· == '/')) = components l := by
  induction l with
  | nil => rfl
  | cons c l ih =>
    by_cases hc : c = '/'
    · subst hc
      rw [List.dropWhile_cons_of_pos (by decide), ih, ← List.nil_append ('/' :: l), components_append]
      rfl
    · rw [List.dropWhile_cons_of_neg (by simpa using hc)]

theorem components_reverse_dropWhile (l : List Char) :
    components (l.dropWhile (· == '/')).reverse = components l.reverse := by
  induction l with
  | nil => rfl
  | cons c l ih =>
    by_cases hc : c = '/'
    · subst hc
      rw [List.dropWhile_cons_of_pos (by decide), ih, List.reverse_cons, components_append, components_of_not_mem
        (List.not_mem_nil _), if_pos rfl, List.append_nil]
    · rw [List.dropWhile_cons_of_neg (by simpa using hc)]

theorem components_trimSlashes (l : List Char) : components (trimSlashes l) = components l := by
  rw [trimSlashes, components_reverse_dropWhile, List.reverse_reverse, components_dropWhile]

/-- The trimmed path neither starts nor ends with `/`. -/
theorem trimSlashes_ends (l : List Char) :
    (∀ s, trimSlashes l ≠ '/' :: s) ∧ ∀ s, trimSlashes l ≠ s ++ ['/'] := by
  have hnot (m : List Char) : ∀ s, m.dropWhile (· == '/') ≠ '/' :: s := fun s hs => by
    simpa [hs] using List.head?_dropWhile_not (· == '/') m
  have hx : l.dropWhile (· == '/') =
      trimSlashes l ++ ((l.dropWhile (· == '/')).reverse.takeWhile (· == '/')).reverse := by
    rw [trimSlashes, ← List.reverse_append, List.takeWhile_append_dropWhile, List.reverse_reverse]
  refine ⟨fun s hs => hnot l _ (hx.trans (by rw [hs]; rfl)), fun s hs => hnot (l.dropWhile (· == '/')).reverse s.reverse ?_⟩
  rw [trimSlashes, List.reverse_eq_iff] at hs
  simpa using hs

/-- What `split_path` returns, in components. -/
theorem splitPath_cases (path : String) :
    (splitPath path = ("", none) ∧ pathComponents path = []) ∨
      (∃ c, splitPath path = (c, none) ∧ pathComponents path = [c]) ∨
      ∃ c rest, splitPath path = (c, some rest) ∧ pathComponents path = c :: pathComponents rest ∧
        pathComponents rest ≠ [] := by
  obtain ⟨hhead, hlast⟩ := trimSlashes_ends path.data
  have hc : pathComponents path = (components (trimSlashes path.data)).map String.mk := by
    rw [components_trimSlashes]; rfl
  have hw : '/' ∉ (trimSlashes path.data).takeWhile (· != '/') := fun hm => by
    simpa using List.mem_takeWhile_imp hm
  have ht := List.takeWhile_append_dropWhile (· != '/') (trimSlashes path.data)
  unfold splitPath
  rw [List.span_eq_take_drop]
  generalize (trimSlashes path.data).takeWhile (· != '/') = comp at hw ht ⊢
  rcases hr : (trimSlashes path.data).dropWhile (· != '/') with _ | ⟨x, rest⟩
  · rw [hr, List.append_nil] at ht
    rw [hc, ← ht, components_of_not_mem hw]
    by_cases h0 : comp = []
    · subst h0
      exact .inl ⟨rfl, rfl⟩
    · exact .inr (.inl ⟨_, rfl, by rw [if_neg h0]; rfl⟩)
  · have hx : x = '/' := by simpa [hr] using List.head?_dropWhile_not (· != '/') (trimSlashes path.data)
    rw [hr, hx] at ht
    rw [← ht] at hc hhead hlast
    refine .inr (.inr ⟨_, ⟨rest⟩, rfl, ?_, fun hn => ?_⟩)
    · rw [hc, components_append, components_of_not_mem hw, if_neg fun h0 => hhead rest (by rw [h0]; rfl)]
      rfl
    · have hall := (components_eq_nil_iff rest).mp (List.map_eq_nil_iff.mp hn)
      rcases List.eq_nil_or_concat rest with rfl | ⟨s, y, rfl⟩
      · exact hlast comp rfl
      · exact hlast (comp ++ '/' :: s) (by rw [hall y (by simp)]; simp)

/-! ## The walk over the components -/

section Components

variable {α : Type} (leaf : Volume → Option Nat → String → Except Fault DirEntry → Except Fault α × Volume)
  (v : Volume)

/-- The walk over the components of a path: go into each component but the last as a directory, and at the last let
`leaf` do the walk's own work. With no component, the name looked up is empty, as `split_path` gives it. -/
def walkComps : Option Nat → List String → Except Fault α × Volume
  | d, [] => leaf v d "" (findEntry (v.stream d) "")
  | d, [c] => leaf v d c (findEntry (v.stream d) c)
  | d, c :: c' :: cs =>
    match (findEntry (v.stream d) c).bind DirEntry.toDir with
    | .error f => (.error f, v)
    | .ok d' => walkComps d' (c' :: cs)

/-- Every walk is the walk over its path's components. -/
theorem walk_eq_walkComps (d : Option Nat) (path : String) :
    walk leaf v d path = walkComps leaf v d (pathComponents path) := by
  rcases splitPath_cases path with ⟨hs, hp⟩ | ⟨c, hs, hp⟩ | ⟨c, rest, hs, hp, hr⟩
  · rw [walk_eq, hs, hp]; rfl
  · rw [walk_eq, hs, hp]; rfl
  · obtain ⟨c', cs, hcs⟩ := List.exists_cons_of_ne_nil hr
    have := length_splitPath_rest hs
    rw [walk_eq, hs, hp, hcs, walkComps]
    dsimp only
    cases (findEntry (v.stream d) c).bind DirEntry.toDir with
    | error f => rfl
    | ok d' =>
      rw [← hcs]
      exact walk_eq_walkComps d' rest
termination_by path.length

/-- The directory a walk from `d` is in after the components `pre`, each found and taken as a directory. -/
def descend (d : Option Nat) (pre : List String) : Except Fault (Option Nat) :=
  pre.foldlM (fun d c => (findEntry (v.stream d) c).bind DirEntry.toDir) d

/-- The walk over `pre ++ cs` goes through `pre` and then walks `cs`. -/
theorem walkComps_append {cs : List String} (hcs : cs ≠ []) : ∀ (d : Option Nat) (pre : List String),
    walkComps leaf v d (pre ++ cs) =
      match descend v d pre with
      | .error f => (.error f, v)
      | .ok d' => walkComps leaf v d' cs
  | d, [] => rfl
  | d, c :: pre => by
    obtain ⟨c', cs', hc⟩ := List.exists_cons_of_ne_nil (List.append_ne_nil_of_right_ne_nil pre hcs)
    rw [List.cons_append, hc, walkComps, ← hc, descend, List.foldlM_cons]
    cases (findEntry (v.stream d) c).bind DirEntry.toDir with
    | error f => rfl
    | ok d' => exact walkComps_append hcs d' pre

/-- A walk goes into every component but the last, and at the last looks that component up where it got to. -/
theorem walkComps_eq_descend (d : Option Nat) (cs : List String) :
    walkComps leaf v d cs =
      match descend v d cs.dropLast with
      | .error f => (.error f, v)
      | .ok d' => leaf v d' (cs.getLastD "") (findEntry (v.stream d') (cs.getLastD "")) := by
  rcases List.eq_nil_or_concat cs with rfl | ⟨pre, c, rfl⟩
  · rfl
  · rw [List.concat_eq_append, walkComps_append leaf v (List.cons_ne_nil c []) d pre, List.dropLast_concat,
      List.getLastD_concat]
    rfl

end Components

/-! ## Paths with the same components -/

/-- The four walks see a path only through its components: leading, trailing and repeated `/` change nothing. -/
theorem walks_of_components_eq (v : Volume) (d : Option Nat) {p q : String}
    (h : pathComponents p = pathComponents q) :
    openDir v d p = openDir v d q ∧ openFile v d p = openFile v d q ∧ createFile v d p = createFile v d q ∧
      remove v d p = remove v d q := by
  simp only [openDir, openFile, createFile, remove, walk_eq_walkComps, h, and_self]

/-- The root holds the directory `A` on the chain at 2, which holds the file `b`: `/a//b/` reaches the file as `a/b`
does. -/
theorem walks_of_components_eq_slashes :
    let v : Volume := ⟨⟨[(DirEntryData.file { (default : DirFileEntryData) with
        name := ⟨0x41 :: List.replicate 10 0x20, rfl⟩, attrs := .directory, firstClusterLo := 2 }).toSlot, zeroSlot],
        none⟩, fun n => if n = 2 then (createFileEntry ⟨List.replicate 3 zeroSlot, some 16⟩ "b").2 else ⟨[], some 16⟩,
      []⟩
    pathComponents "/a//b/" = pathComponents "a/b" ∧ (openFile v none "/a//b/").isOk = true ∧
      (openDir v none "/a//b/" = openDir v none "a/b" ∧ openFile v none "/a//b/" = openFile v none "a/b" ∧
        createFile v none "/a//b/" = createFile v none "a/b" ∧ remove v none "/a//b/" = remove v none "a/b") :=
  have h : pathComponents "/a//b/" = pathComponents "a/b" := by decide
  ⟨h, by decide, walks_of_components_eq _ none h⟩

/-! ## Components of the wrong kind -/

/-- A walk that has gone through the directories `pre` to `d'` and finds `e` for the next component `c`: if `e` is a
file and components follow, every walk stops at the panic of `to_dir`, with the volume as it was; if `c` is the last
component, `open_dir` of a file panics in `to_dir`, and `open_file` and `create_file` of a directory in `to_file`. -/
theorem walk_kind_panics {v : Volume} {d d' : Option Nat} {path c : String} {pre rest : List String}
    {e : DirEntry} (hp : pathComponents path = pre ++ c :: rest) (hd : descend v d pre = .ok d')
    (he : findEntry (v.stream d') c = .ok e) :
    (rest ≠ [] → e.isDir = false →
      openDir v d path = .error notADirPanic ∧ openFile v d path = .error notADirPanic ∧
        createFile v d path = (.error notADirPanic, v) ∧ remove v d path = (.error notADirPanic, v)) ∧
    (rest = [] → e.isDir = false → openDir v d path = .error notADirPanic) ∧
    (rest = [] → e.isDir = true →
      openFile v d path = .error notAFilePanic ∧ createFile v d path = (.error notAFilePanic, v)) := by
  have hw {α : Type} (leaf : Volume → Option Nat → String → Except Fault DirEntry → Except Fault α × Volume) :
      walk leaf v d path = walkComps leaf v d' (c :: rest) := by
    rw [walk_eq_walkComps, hp, walkComps_append _ _ (List.cons_ne_nil _ _), hd]
  refine ⟨fun hr hf => ?_, fun hr hf => ?_, fun hr hf => ?_⟩
  · obtain ⟨r, rs, rfl⟩ := List.exists_cons_of_ne_nil hr
    simp [openDir, openFile, createFile, remove, hw, walkComps, he, Except.bind, DirEntry.toDir, hf]
  · subst hr
    simp [openDir, hw, walkComps, openDirLeaf, he, Except.bind, DirEntry.toDir, hf]
  · subst hr
    simp [openFile, createFile, hw, walkComps, openFileLeaf, createFileLeaf, he, Except.bind, DirEntry.toFile, hf]

theorem walk_kind_panics_file_a :
    let v : Volume := ⟨(createFileEntry ⟨List.replicate 3 zeroSlot, none⟩ "a").2, fun _ => ⟨[], none⟩, []⟩
    let e : DirEntry := ⟨rawEntry ⟨0x41 :: List.replicate 10 0x20, rfl⟩, [0x61], (0, 64)⟩
    (pathComponents "a/b" = [] ++ "a" :: ["b"] ∧ descend v none [] = .ok none ∧
        findEntry (v.stream none) "a" = .ok e) ∧
      ((["b"] ≠ [] → e.isDir = false →
        openDir v none "a/b" = .error notADirPanic ∧ openFile v none "a/b" = .error notADirPanic ∧
          createFile v none "a/b" = (.error notADirPanic, v) ∧ remove v none "a/b" = (.error notADirPanic, v)) ∧
      (["b"] = [] → e.isDir = false → openDir v none "a/b" = .error notADirPanic) ∧
      (["b"] = [] → e.isDir = true →
        openFile v none "a/b" = .error notAFilePanic ∧ createFile v none "a/b" = (.error notAFilePanic, v))) :=
  have h : pathComponents "a/b" = [] ++ "a" :: ["b"] ∧ _ ∧ _ := ⟨by decide, rfl, by decide⟩
  ⟨h, walk_kind_panics h.1 h.2.1 h.2.2⟩

end FatDir
