import PascalAtlas.Proofs.Listed

/-!
# The order of listing does not matter

A directory lists its entries in whatever order it likes, and a walk through it takes them in that
order. What is made of the inputs of a batch does not depend on it. Take two trees that differ in
nothing but the order of entries, in any directories and at any depth (`FileTree.Relisted`), and a
program that runs in the same directory of both of them (`FileSystem.Relisted`):

* Every path leads to the same place in both of them, up to the order of what lies below it. So the
  same inputs are files, directories or missing.
* The walks below a directory find the same paths in two orders. Each of the walks is sorted, and no
  two of its paths have the same place in the order of paths, so **one list** is left.

What is left is the list of the sources below the directory: each of them once, and nothing
else (`Config.Lists`).
-/

namespace PascalAtlas

namespace FileTree

/-! ## The same tree, listed in another order -/

/-- **Relisted trees**: the entries of a directory are listed in another order, perhaps deep inside
the tree, and perhaps in many places one after the other. -/
inductive Relisted : FileTree → FileTree → Prop
  | refl (t : FileTree) : Relisted t t
  | perm {entries entries' : List (Text × FileTree)} (h : entries.Perm entries') :
    Relisted (.directory entries) (.directory entries')
  | inside {name : Text} {t t' : FileTree} (front back : List (Text × FileTree))
    (h : Relisted t t') :
    Relisted (.directory (front ++ (name, t) :: back)) (.directory (front ++ (name, t') :: back))
  | trans {t u v : FileTree} (h : Relisted t u) (h' : Relisted u v) : Relisted t v

namespace Relisted

variable {t t' u : FileTree}

/-- An order can be changed back. -/
theorem symm (h : t.Relisted t') : t'.Relisted t := by
  induction h with
  | refl t => exact .refl t
  | perm h => exact .perm h.symm
  | inside front back _ ih => exact .inside front back ih
  | trans _ _ ih ih' => exact .trans ih' ih

/-- What is a directory stays one. -/
theorem isDirectory_eq (h : t.Relisted t') : t'.isDirectory = t.isDirectory := by
  induction h with
  | trans _ _ ih ih' => exact ih'.trans ih
  | _ => rfl

/-- What is proper is so in every order. -/
theorem proper (h : t.Relisted t') (ht : t.Proper) : t'.Proper := by
  induction h with
  | refl => exact ht
  | trans _ _ ih ih' => exact ih' (ih ht)
  | perm h =>
    cases ht with
    | directory names distinct below =>
      refine .directory (fun e he => names e (h.mem_iff.2 he)) ?_
        (fun e he => below e (h.mem_iff.2 he))
      exact (h.map Prod.fst).nodup_iff.1 distinct
  | @inside name t t' front back h ih =>
    cases ht with
    | directory names distinct below =>
      have hother : ∀ e ∈ front ++ (name, t') :: back, e = (name, t')
          ∨ e ∈ front ++ (name, t) :: back := by
        intro e he
        simp only [List.mem_append, List.mem_cons] at he ⊢
        tauto
      refine .directory (fun e he => ?_) (by simpa using distinct) (fun e he => ?_)
      · rcases hother e he with rfl | he
        · exact names (name, t) (by simp)
        · exact names e he
      · rcases hother e he with rfl | he
        · exact ih (below (name, t) (by simp))
        · exact below e he

/-- An entry is an entry in every order. -/
theorem exists_child? {name : Text} (h : t.Relisted t') (ht : t.Proper)
    (hu : t.child? name = some u) :
    ∃ u', t'.child? name = some u' ∧ u.Relisted u' := by
  induction h generalizing u with
  | refl => exact ⟨u, hu, .refl u⟩
  | trans h _ ih ih' =>
    obtain ⟨v, hv, huv⟩ := ih ht hu
    obtain ⟨w, hw, hvw⟩ := ih' (h.proper ht) hv
    exact ⟨w, hw, huv.trans hvw⟩
  | perm h =>
    have ht' := (perm h).proper ht
    cases ht with
    | directory _ distinct _ =>
    cases ht' with
    | directory _ distinct' _ =>
      have hmem := h.mem_iff.1 ((child?_eq_some_iff distinct).1 hu)
      exact ⟨u, (child?_eq_some_iff distinct').2 hmem, .refl u⟩
  | @inside name' t t' front back h ih =>
    have ht' := (inside front back h).proper ht
    cases ht with
    | directory _ distinct _ =>
    cases ht' with
    | directory _ distinct' _ =>
      have hmem := (child?_eq_some_iff distinct).1 hu
      simp only [List.mem_append, List.mem_cons] at hmem
      -- Only the entry in the middle has become another one.
      rcases hmem with hmem | heq | hmem
      · exact ⟨u, (child?_eq_some_iff distinct').2 (by simp [hmem]), .refl u⟩
      · obtain ⟨rfl, rfl⟩ := Prod.mk.inj heq
        exact ⟨t', (child?_eq_some_iff distinct').2 (by simp), h⟩
      · exact ⟨u, (child?_eq_some_iff distinct').2 (by simp [hmem]), .refl u⟩

/-! ## Where paths lead -/

/-- Names lead to **the same place** in both trees, up to the order below it. -/
theorem exists_at? {names : List Text} (h : t.Relisted t') (ht : t.Proper)
    (hu : t.at? names = some u) :
    ∃ u', t'.at? names = some u' ∧ u.Relisted u' := by
  induction names generalizing t t' with
  | nil =>
    obtain rfl := Option.some.inj hu
    exact ⟨t', rfl, h⟩
  | cons name names ih =>
    obtain ⟨v, hv, hu⟩ := Option.bind_eq_some_iff.1 hu
    obtain ⟨v', hv', hrelisted⟩ := h.exists_child? ht hv
    obtain ⟨u', hu', hlast⟩ := ih hrelisted (ht.of_child? hv).2.1 hu
    exact ⟨u', by rw [at?, hv']; exact hu', hlast⟩

/-- Names lead to the same place in both trees, or nowhere in both. -/
theorem rel_at? (h : t.Relisted t') (ht : t.Proper) (names : List Text) :
    Option.Rel Relisted (t.at? names) (t'.at? names) := by
  cases hu : t.at? names with
  | some u =>
    obtain ⟨u', hu', hrelisted⟩ := h.exists_at? ht hu
    rw [hu']
    exact .some hrelisted
  | none =>
    cases hu' : t'.at? names with
    | none => exact .none
    | some u' =>
      -- What the second tree has there, the first one has too.
      obtain ⟨v, hv, -⟩ := h.symm.exists_at? (h.proper ht) hu'
      rw [hu] at hv
      cases hv

/-- So they lead to a directory in both or in neither. -/
theorem any_isDirectory_at? (h : t.Relisted t') (ht : t.Proper) (names : List Text) :
    (t'.at? names).any isDirectory = (t.at? names).any isDirectory := by
  have hrel := h.rel_at? ht names
  generalize t.at? names = o at hrel ⊢
  generalize t'.at? names = o' at hrel ⊢
  cases hrel with
  | some hrelisted => exact hrelisted.isDirectory_eq
  | none => rfl

/-- Following segments asks only **which names are those of directories**. -/
theorem locateFrom?_eq (h : t.Relisted t') (ht : t.Proper) (place segments : List Text) :
    t'.locateFrom? place segments = t.locateFrom? place segments := by
  induction segments generalizing place with
  | nil => rw [locateFrom?, locateFrom?]
  | cons segment segments ih =>
    rw [locateFrom?, locateFrom?, h.any_isDirectory_at? ht, ih, ih, ih]

/-! ## What the walks find -/

/-- **The walks through both trees find the same paths**, in two orders. -/
theorem filesAt_perm (h : t.Relisted t') (accepts : FilePath → Bool) (p : FilePath) :
    (filesAt accepts p t).Perm (filesAt accepts p t') := by
  induction h generalizing p with
  | refl => exact .refl _
  | trans _ _ ih ih' => exact (ih p).trans (ih' p)
  | perm h =>
    rw [filesAt, filesAt, filesBelow_eq, filesBelow_eq]
    exact h.flatMap_right _
  | inside front back _ ih =>
    rw [filesAt, filesAt, filesBelow_eq, filesBelow_eq, List.flatMap_append, List.flatMap_append,
      List.flatMap_cons, List.flatMap_cons]
    exact .append_left _ ((ih _).append_right _)

/-- **Sorting leaves one list of both walks.** -/
theorem sorted_eq (h : t.Relisted t') (ht : t.Proper) (accepts : FilePath → Bool) (p : FilePath) :
    (filesAt accepts p t').mergeSort FilePath.le = (filesAt accepts p t).mergeSort FilePath.le := by
  -- Sorted lists with the same members are equal where no two members have the same
  -- place in the order.
  have hperm := (h.filesAt_perm accepts p).symm
  refine List.Perm.eq_of_pairwise ?_ (FilePath.pairwise_mergeSort _)
    (FilePath.pairwise_mergeSort _) ?_
  · intro a b ha hb hab hba
    rw [List.mem_mergeSort] at ha hb
    exact eq_of_key_eq ht (hperm.mem_iff.1 ha) hb (FilePath.key_eq_of_le hab hba)
  · exact (List.mergeSort_perm _ _).trans (hperm.trans (List.mergeSort_perm _ _).symm)

end Relisted

end FileTree

namespace FileSystem

/-- **Relisted file systems**: the program runs in the same directory, and the directories list
their entries in other orders. -/
structure Relisted (fs fs' : FileSystem) : Prop where
  root : fs.root.Relisted fs'.root
  here : fs'.here = fs.here

variable {fs fs' : FileSystem}

/-- Every path leads to the same place, up to the order of what lies below it,
or nowhere in both. -/
theorem Relisted.rel_lookup? (h : fs.Relisted fs') (hfs : fs.root.Proper) (p : FilePath) :
    Option.Rel FileTree.Relisted (fs.lookup? p) (fs'.lookup? p) := by
  have horigin : fs'.origin p = fs.origin p := by rw [origin, h.here, origin]
  have hlocate : fs'.locate? p = fs.locate? p := by
    rw [locate?, horigin, h.root.locateFrom?_eq hfs, locate?]
  rw [lookup?, lookup?, hlocate]
  cases fs.locate? p with
  | none => exact .none
  | some names => exact h.root.rel_at? hfs names

end FileSystem

/-! ## The files of a batch -/

open FileTree (Relisted filesAt)

variable {c : Config} {fs fs' : FileSystem} {d : FileTree} {dir : FilePath}

/-- **The sources below a directory** `d`, to which the path `dir` leads. -/
structure Config.Lists (c : Config) (fs : FileSystem) (dir : FilePath) (d : FileTree)
    (files : List FilePath) : Prop where
  /-- Every file below the directory, at any depth, is there **once** if its
  extension is accepted. -/
  once : ∀ names bytes, d.at? names = some (.file bytes) → c.accepts (dir.below names) = true →
    files.count (dir.below names) = 1
  /-- **Nothing else** is there: what is there is accepted, and leads to one such file. -/
  only : ∀ q ∈ files, c.accepts q = true ∧ ∃ names bytes,
    d.at? names = some (.file bytes) ∧ q = dir.below names ∧
    fs.lookup? q = some (.file bytes) ∧
    ∀ names' bytes', d.at? names' = some (.file bytes') → q = dir.below names' → names' = names
  /-- The paths are in order, component by component. -/
  sorted : files.Pairwise FilePath.Before

/-- The sorted walk below a directory lists its sources. -/
theorem lists_mergeSort (hfs : fs.root.Proper) (hd : fs.lookup? dir = some d) :
    c.Lists fs dir d ((filesAt c.accepts dir d).mergeSort FilePath.le) := by
  have hproper := FileSystem.proper_of_lookup? hfs hd
  have hnodup : ((filesAt c.accepts dir d).mergeSort FilePath.le).Nodup :=
    (List.mergeSort_perm _ _).nodup_iff.2 (FileTree.nodup_filesAt hproper)
  constructor
  · intro names bytes hat haccepts
    apply List.count_eq_one_of_mem hnodup
    rw [List.mem_mergeSort]
    exact (FileTree.mem_filesAt hproper).2 ⟨haccepts, names, bytes, hat, rfl⟩
  · intro q hq
    rw [List.mem_mergeSort] at hq
    obtain ⟨haccepts, names, bytes, hat, rfl⟩ := (FileTree.mem_filesAt hproper).1 hq
    refine ⟨haccepts, names, bytes, hat, rfl, FileSystem.lookup?_below hd hproper hat, ?_⟩
    intro names' bytes' hat' heq
    exact FilePath.key_below_inj (hproper.of_at? hat').1 (hproper.of_at? hat).1
      (congrArg FilePath.key heq.symm)
  · refine List.Pairwise.imp_of_mem ?_ ((FilePath.pairwise_mergeSort _).and hnodup)
    intro p q hp hq hpq
    rw [List.mem_mergeSort] at hp hq
    exact FilePath.before_of_le hpq.1 fun hkey => hpq.2 (FileTree.eq_of_key_eq hproper hp hq hkey)

theorem filesOfInput?_eq (c : Config) (fs : FileSystem) (input : FilePath) :
    filesOfInput? c fs input = (fs.lookup? input).map fun d =>
      if d.isDirectory then (filesAt c.accepts input d).mergeSort FilePath.le else [input] := by
  rw [filesOfInput?]
  split
  next entries hd =>
    have hdirectory : (FileTree.directory entries).isDirectory = true := rfl
    rw [hd, Option.map_some, if_pos hdirectory, sourcesBelow, filesAt]
  next bytes hd => rw [hd]; rfl
  next hd => rw [hd]; rfl

/-- One input gives the same files in every order of listing. -/
theorem FileSystem.Relisted.filesOfInput?_eq (h : fs.Relisted fs') (hfs : fs.root.Proper)
    (input : FilePath) : filesOfInput? c fs' input = filesOfInput? c fs input := by
  rw [PascalAtlas.filesOfInput?_eq, PascalAtlas.filesOfInput?_eq]
  have hrel := h.rel_lookup? hfs input
  have hproper : ∀ d, fs.lookup? input = some d → d.Proper := fun d hd => proper_of_lookup? hfs hd
  generalize fs.lookup? input = o at hrel hproper ⊢
  generalize fs'.lookup? input = o' at hrel ⊢
  cases hrel with
  | none => rfl
  | some hrelisted =>
    rw [Option.map_some, Option.map_some, hrelisted.isDirectory_eq,
      hrelisted.sorted_eq (hproper _ rfl)]

/-- The files of a batch are those of its inputs, **in the order of the inputs**. -/
theorem files_expandInputs (c : Config) (fs : FileSystem) (inputs : List FilePath) :
    (expandInputs c fs inputs).1
      = inputs.flatMap fun input => (filesOfInput? c fs input).getD [] := by
  rw [expandInputs]
  split
  next hempty =>
    rw [List.isEmpty_iff.1 hempty]
    rfl
  next => exact List.flatMap_map ..

/-- **What is made of the inputs does not depend on the order of listing.** Whatever the order in
which the directories list their entries, the files and the diagnostics are the same. The files are
those of the inputs in their order, and a directory among the inputs, by whatever path it is given,
gives the list of the sources below it. -/
theorem expandInputs_relisted (c : Config) {fs fs' : FileSystem} (hfs : fs.root.Proper)
    (h : fs.Relisted fs') (inputs : List FilePath) :
    expandInputs c fs' inputs = expandInputs c fs inputs ∧
    (expandInputs c fs inputs).1
      = inputs.flatMap (fun input => (filesOfInput? c fs input).getD []) ∧
    ∀ input d, fs.lookup? input = some d → d.isDirectory = true →
      ∃ files, filesOfInput? c fs input = some files ∧ c.Lists fs input d files := by
  refine ⟨?_, files_expandInputs c fs inputs, fun input d hd hdir => ?_⟩
  · have hfiles : filesOfInput? c fs' = filesOfInput? c fs :=
      funext fun input => h.filesOfInput?_eq hfs input
    rw [expandInputs, expandInputs, hfiles]
  · refine ⟨_, ?_, lists_mergeSort hfs hd⟩
    rw [filesOfInput?_eq, hd, Option.map_some, if_pos hdir]

/-- A directory `src` with a source `a-b.pas` and a directory `a`, in which there are a text and a
source. -/
def FileTree.sample : FileTree :=
  .directory [("src".toList, .directory [("a-b.pas".toList, .file []),
    ("a".toList, .directory [("c.txt".toList, .file []), ("b.PAS".toList, .file [])])])]

/-- The same tree with both directories listed the other way. -/
def FileTree.sampleReversed : FileTree :=
  .directory [("src".toList, .directory
    [("a".toList, .directory [("b.PAS".toList, .file []), ("c.txt".toList, .file [])]),
      ("a-b.pas".toList, .file [])])]

/-- The program runs in the inner directory. The outer one is given by an absolute path and by one
that leads out of the working directory, and the root by one that leads out of the tree. -/
theorem expandInputs_relisted_sample :
    let fs : FileSystem := ⟨.sample, ["src".toList, "a".toList]⟩
    let fs' : FileSystem := ⟨.sampleReversed, ["src".toList, "a".toList]⟩
    let c : Config := .defaults (.ofName "")
    let inputs : List FilePath :=
      [.ofName "/src", .ofName "..//", .ofName "gone", .ofName "../../.."]
    fs.root.Proper ∧ fs.Relisted fs' ∧
    (∀ input ∈ [FilePath.ofName "/src", .ofName "..//"], ∃ d, fs.lookup? input = some d ∧
      d.isDirectory = true ∧ ∃ files, filesOfInput? c fs input = some files ∧
        c.Lists fs input d files) ∧
    expandInputs c fs' inputs = expandInputs c fs inputs := by
  intro fs fs' c inputs
  have hproper : FileTree.sample.Proper := by
    refine .directory (by decide) (by decide) (List.forall_mem_singleton.2 ?_)
    refine .directory (by decide) (by decide)
      (List.forall_mem_cons.2 ⟨.file [], List.forall_mem_singleton.2 ?_⟩)
    exact .directory (by decide) (by decide)
      (List.forall_mem_cons.2 ⟨.file [], List.forall_mem_singleton.2 (.file [])⟩)
  have hroot : FileTree.sample.Relisted FileTree.sampleReversed :=
    .inside [] [] (.trans (.inside [_] [] (.perm (.swap ..))) (.perm (.swap ..)))
  have hrelisted : fs.Relisted fs' := ⟨hroot, rfl⟩
  obtain ⟨hsame, -, hlists⟩ := expandInputs_relisted c hproper hrelisted inputs
  refine ⟨hproper, hrelisted, ?_, hsame⟩
  have hplace : fs.root.at? ["src".toList] = some _ := rfl
  have habsolute := FileSystem.lookup?_absolute hproper rfl hplace
  refine List.forall_mem_cons.2 ⟨⟨_, habsolute, rfl, hlists _ _ habsolute rfl⟩, ?_⟩
  exact List.forall_mem_singleton.2 ⟨_, rfl, rfl, hlists _ _ rfl rfl⟩

end PascalAtlas
