import Mathlib.Data.List.Nodup
import PascalAtlas.Batch
import PascalAtlas.Proofs.ParamList

/-!
# The files below a directory

A walk through a directory spells the path of each file it finds, name by name from the path of the
directory (`FilePath.below`). In a **proper** tree (`FileTree.Proper`), in which every directory has
different names for its entries and no name is one that paths give a meaning to, such a path tells
everything about the file:

* its components are those of the directory and then the names on the way
  (`FilePath.components_below`), so two files never have the same place in the order of paths;
* it leads to the file (`FileSystem.lookup?_below`), however the path of the directory was spelled:
  from the root or from the working directory, and with `..` in it or without.

So the walk finds exactly the files that the tree has there (`FileTree.mem_filesAt`), and
finds each of them once.
-/

namespace PascalAtlas

namespace FileTree

/-! ## Proper trees -/

/-- What an entry of a directory may be called: something that a path takes for one name. -/
structure IsName (name : Text) : Prop where
  ne_nil : name ≠ []
  no_slash : '/' ∉ name
  not_current : name ≠ ['.']
  not_parent : name ≠ ['.', '.']

instance (name : Text) : Decidable (IsName name) :=
  decidable_of_iff (name ≠ [] ∧ '/' ∉ name ∧ name ≠ ['.'] ∧ name ≠ ['.', '.'])
    ⟨fun h => ⟨h.1, h.2.1, h.2.2.1, h.2.2.2⟩,
      fun h => ⟨h.ne_nil, h.no_slash, h.not_current, h.not_parent⟩⟩

/-- **Proper trees**: in each directory the entries have names, and different ones. -/
inductive Proper : FileTree → Prop
  | file (bytes : List UInt8) : Proper (.file bytes)
  | directory {entries : List (Text × FileTree)} (names : ∀ e ∈ entries, IsName e.1)
      (distinct : (entries.map Prod.fst).Nodup) (below : ∀ e ∈ entries, Proper e.2) :
      Proper (.directory entries)

variable {t u d : FileTree} {name : Text} {entries : List (Text × FileTree)}

/-- An entry is found by its name where no other entry has it. -/
theorem child?_eq_some_iff (h : (entries.map Prod.fst).Nodup) :
    (directory entries).child? name = some u ↔ (name, u) ∈ entries := by
  induction entries with
  | nil => simp [child?]
  | cons e entries ih =>
    obtain ⟨hother, hrest⟩ := List.nodup_cons.1 h
    -- The first entry with the name is taken, and there is no second one.
    by_cases he : e.1 = name
    · have hfound : (directory (e :: entries)).child? name = some e.2 := by simp [child?, he]
      rw [hfound]
      constructor
      · intro hu
        obtain rfl := Option.some.inj hu
        exact List.mem_cons.2 (.inl (Prod.ext he.symm rfl))
      · intro hmem
        rcases List.mem_cons.1 hmem with heq | hmem
        · rw [← heq]
        · exact absurd (List.mem_map.2 ⟨_, hmem, he.symm⟩) hother
    · have hskip : (directory (e :: entries)).child? name = (directory entries).child? name := by
        simp [child?, he]
      rw [hskip, ih hrest, List.mem_cons]
      exact ⟨.inr, fun hmem => hmem.resolve_left fun heq => he (by rw [← heq])⟩

/-- What has an entry is a directory. -/
theorem Proper.of_child? (ht : t.Proper) (hu : t.child? name = some u) :
    IsName name ∧ u.Proper ∧ t.isDirectory = true := by
  cases ht with
  | file bytes => cases hu
  | directory names distinct below =>
    have hmem := (child?_eq_some_iff distinct).1 hu
    exact ⟨names _ hmem, below _ hmem, rfl⟩

/-- Names lead on from where the names before them have led. -/
theorem at?_append (names others : List Text) :
    t.at? (names ++ others) = (t.at? names).bind (at? others) := by
  induction names generalizing t with
  | nil => rfl
  | cons name names ih =>
    rw [List.cons_append, at?, at?, Option.bind_assoc]
    exact congrArg _ (funext fun _ => ih)

/-- What a proper tree has below it is proper, and is reached by proper names. -/
theorem Proper.of_at? {names : List Text} (ht : t.Proper) (hu : t.at? names = some u) :
    (∀ name ∈ names, IsName name) ∧ u.Proper := by
  induction names generalizing t with
  | nil =>
    obtain rfl := Option.some.inj hu
    exact ⟨by simp, ht⟩
  | cons name names ih =>
    obtain ⟨v, hv, hu⟩ := Option.bind_eq_some_iff.1 hu
    obtain ⟨hname, hproper, -⟩ := ht.of_child? hv
    obtain ⟨hnames, huproper⟩ := ih hproper hu
    exact ⟨List.forall_mem_cons.2 ⟨hname, hnames⟩, huproper⟩

end FileTree

/-! ## Paths name by name -/

namespace FilePath

open FileTree (IsName)

variable {p q : FilePath} {name : Text}

/-- The path that goes on from another by some **names**. -/
def below (p : FilePath) (names : List Text) : FilePath :=
  names.foldl (fun q name => q.join ⟨name⟩) p

@[simp] theorem below_nil : p.below [] = p := rfl

@[simp] theorem below_cons (names : List Text) :
    p.below (name :: names) = (p.join ⟨name⟩).below names := rfl

/-- A name is one segment. -/
theorem splitBy_name (hname : IsName name) : Text.splitBy (· == '/') name = [name] := by
  refine Text.splitBy_eq_self fun c hc => ?_
  simpa using fun heq : c = '/' => hname.no_slash (heq ▸ hc)

/-- A name is a relative path. -/
theorem isAbsolute_name (hname : IsName name) : (⟨name⟩ : FilePath).isAbsolute = false := by
  cases name with
  | nil => rfl
  | cons c cs =>
    simpa [isAbsolute] using fun heq : c = '/' => hname.no_slash (heq ▸ List.mem_cons_self)

/-- A name behind a path leaves the path as it is spelled. -/
theorem spelling_join (hname : IsName name) (hp : p.spelling ≠ []) :
    ∃ back, (p.join ⟨name⟩).spelling = p.spelling ++ back := by
  rw [join, if_neg (by simp [isAbsolute_name hname, hp])]
  split
  · exact ⟨name, rfl⟩
  · exact ⟨'/' :: name, rfl⟩

/-- A name behind a path does not change where the path begins. -/
theorem isAbsolute_join (hname : IsName name) (hp : p.spelling ≠ []) :
    (p.join ⟨name⟩).spelling ≠ [] ∧ (p.join ⟨name⟩).isAbsolute = p.isAbsolute := by
  obtain ⟨back, hback⟩ := spelling_join hname hp
  obtain ⟨c, cs, hspelling⟩ := List.exists_cons_of_ne_nil hp
  rw [isAbsolute, hback, isAbsolute, hspelling]
  exact ⟨List.cons_ne_nil _ _, rfl⟩

/-- The segments of a path with a name behind it. A slash at the end of the path makes an empty
segment, which the name takes the place of. -/
theorem segments_join (hname : IsName name) (hp : p.spelling ≠ []) :
    ∃ first rest, (p.join ⟨name⟩).segments = first :: (rest ++ [name]) ∧
      (p.segments = first :: rest ∨ p.segments = first :: (rest ++ [[]])) := by
  have hrelative := isAbsolute_name hname
  by_cases hslash : p.spelling.getLast? = some '/'
  · obtain ⟨front, hfront⟩ := List.getLast?_eq_some_iff.1 hslash
    have hjoin : (p.join ⟨name⟩).spelling = front ++ '/' :: name := by
      simp [join, hrelative, hfront]
    obtain ⟨first, rest, hsplit⟩ :=
      List.exists_cons_of_ne_nil (Text.splitBy_ne_nil (· == '/') front)
    refine ⟨first, rest, ?_, .inr ?_⟩
    · rw [segments, hjoin, Text.splitBy_append_cons rfl, splitBy_name hname, hsplit,
        List.cons_append]
    · rw [segments, hfront, Text.splitBy_append_cons rfl, hsplit]
      rfl
  · have hjoin : (p.join ⟨name⟩).spelling = p.spelling ++ '/' :: name := by
      simp [join, hrelative, hp, hslash]
    obtain ⟨first, rest, hsplit⟩ :=
      List.exists_cons_of_ne_nil (Text.splitBy_ne_nil (· == '/') p.spelling)
    refine ⟨first, rest, ?_, .inl hsplit⟩
    rw [segments, hjoin, Text.splitBy_append_cons rfl, splitBy_name hname, hsplit, List.cons_append]

/-- An empty segment that stands alone is that of the empty path. -/
theorem rest_ne_nil {rest : List Text} (hp : p.spelling ≠ [])
    (hsegments : p.segments = [] :: rest) : rest ≠ [] := by
  rintro rfl
  rw [segments] at hsegments
  cases hspelling : p.spelling with
  | nil => exact hp hspelling
  | cons c cs =>
    rw [hspelling, Text.splitBy] at hsegments
    split at hsegments
    · exact Text.splitBy_ne_nil _ _ (List.cons.inj hsegments).2
    · split at hsegments <;> cases hsegments

/-- The components of a path other than the empty one. -/
theorem components_eq {first : Text} {rest : List Text} (hsegments : p.segments = first :: rest)
    (hrest : first = [] → rest ≠ []) :
    p.components = firstComponent first false
      ++ (rest.filter fun s => !isIdle s).map .ofSegment := by
  have hfirst : firstComponent first rest.isEmpty = firstComponent first false := by
    by_cases hempty : first = []
    · rw [List.isEmpty_eq_false_iff.2 (hrest hempty)]
    · simp [firstComponent, hempty]
  rw [components, hsegments, ← hfirst]

/-- **A name is one component more.** -/
theorem components_join (hname : IsName name) :
    (p.join ⟨name⟩).components = p.components ++ [.name name] := by
  have hcomponent : Component.ofSegment name = .name name := by
    rw [Component.ofSegment, if_neg hname.not_current, if_neg hname.not_parent]
  by_cases hp : p.spelling = []
  · have hjoin : p.join ⟨name⟩ = ⟨name⟩ := by simp [join, hp]
    have hnone : p.components = [] := by rw [components, segments, hp]; rfl
    rw [hjoin, hnone, components, segments, splitBy_name hname]
    simp [firstComponent, hname.ne_nil, hcomponent]
  · obtain ⟨first, rest, hjoin, hbase⟩ := segments_join hname hp
    have hbefore : p.components
        = firstComponent first false ++ (rest.filter fun s => !isIdle s).map .ofSegment := by
      rcases hbase with hbase | hbase
      · exact components_eq hbase fun hfirst => rest_ne_nil hp (hfirst ▸ hbase)
      · -- The empty segment that the slash makes is idle.
        rw [components_eq hbase fun _ => by simp, List.filter_append]
        simp [isIdle]
    rw [hbefore, components_eq hjoin fun _ => by simp, List.filter_append]
    simp [isIdle, hname.ne_nil, hname.not_current, hcomponent]

/-- The path of a file has the components of the directory **and then the names** that lead
there. -/
theorem components_below {names : List Text} (hnames : ∀ name ∈ names, IsName name) :
    (p.below names).components = p.components ++ names.map .name := by
  induction names generalizing p with
  | nil => simp
  | cons name names ih =>
    obtain ⟨hname, hnames⟩ := List.forall_mem_cons.1 hnames
    rw [below_cons, ih hnames, components_join hname, List.append_assoc]
    rfl

/-- **Names tell paths apart**, also in the order of paths. -/
theorem key_below_inj {names names' : List Text} (hnames : ∀ name ∈ names, IsName name)
    (hnames' : ∀ name ∈ names', IsName name) (h : (p.below names).key = (p.below names').key) :
    names = names' := by
  rw [key, key, components_below hnames, components_below hnames', List.map_append, List.map_append,
    List.map_map, List.map_map] at h
  refine (List.map_inj_right fun a b hkey => ?_).1 (List.append_cancel_left h)
  exact (List.map_inj_right fun _ _ => Char.toNat_inj.1).1 (List.cons.inj hkey).2

/-! ## The order of paths -/

/-- One path comes **before** another: at the first component in which they differ it has the lesser
one, or it ends there. -/
def Before (p q : FilePath) : Prop :=
  List.Lex (List.Lex (· < ·)) p.key q.key

/-- Lists that compare as less do so at the first place where they differ. -/
theorem lex_of_compare {α : Type} [Ord α] [Std.LawfulEqOrd α] {r : α → α → Prop}
    (hr : ∀ a b, compare a b = .lt → r a b) {l l' : List α} (h : compare l l' = .lt) :
    List.Lex r l l' := by
  induction l generalizing l' with
  | nil =>
    cases l' with
    | nil => cases h
    | cons b l' => exact .nil
  | cons a l ih =>
    cases l' with
    | nil => cases h
    | cons b l' =>
      rw [List.compare_cons_cons, Ordering.then_eq_lt] at h
      rcases h with hlt | ⟨heq, hlt⟩
      · exact .rel (hr a b hlt)
      · obtain rfl := Std.compare_eq_iff_eq.1 heq
        exact .cons (ih hlt)

/-- Paths in order that are not the same place are strictly in order. -/
theorem before_of_le (h : p.le q = true) (hne : p.key ≠ q.key) : p.Before q := by
  refine lex_of_compare (fun a b hlt => lex_of_compare (fun m n => Nat.compare_eq_lt.1) hlt) ?_
  rw [le] at h
  cases hcompare : compare p.key q.key with
  | lt => rfl
  | eq => exact absurd (Std.compare_eq_iff_eq.1 hcompare) hne
  | gt => rw [hcompare] at h; cases h

/-- Paths that come before each other are the same place. -/
theorem key_eq_of_le (h : p.le q = true) (h' : q.le p = true) : p.key = q.key :=
  Std.compare_eq_iff_eq.1 (Std.OrientedCmp.isLE_antisymm h h')

theorem le_trans (p q r : FilePath) (h : p.le q = true) (h' : q.le r = true) : p.le r = true :=
  Std.TransCmp.isLE_trans h h'

theorem le_total (p q : FilePath) : (p.le q || q.le p) = true := by
  have hswap : compare p.key q.key = (compare q.key p.key).swap := Std.OrientedCmp.eq_swap
  rw [le, le, hswap]
  cases compare q.key p.key <;> rfl

/-- Sorted paths are in order. -/
theorem pairwise_mergeSort (ps : List FilePath) :
    (ps.mergeSort le).Pairwise fun p q => p.le q = true :=
  List.pairwise_mergeSort le_trans le_total ps

end FilePath

/-! ## Where the paths lead -/

namespace FileTree

variable {t : FileTree} {name : Text} {names place segments : List Text}

/-- An empty segment or a `.` leads nowhere else. -/
theorem locateFrom?_idle {segment : Text} (hdir : (t.at? place.reverse).any isDirectory = true)
    (hidle : FilePath.isIdle segment = true) :
    t.locateFrom? place (segment :: segments) = t.locateFrom? place segments := by
  rw [locateFrom?, if_pos hdir, if_pos hidle]

/-- Nothing leads on from what is not a directory. -/
theorem locateFrom?_outside {segment : Text}
    (hdir : (t.at? place.reverse).any isDirectory = false) :
    t.locateFrom? place (segment :: segments) = none := by
  rw [locateFrom?, if_neg (by rw [hdir]; decide)]

/-- A name leads on from a directory. -/
theorem locateFrom?_name (hdir : (t.at? place.reverse).any isDirectory = true)
    (hidle : FilePath.isIdle name = false) (hparent : name ≠ ['.', '.']) :
    t.locateFrom? place (name :: segments) = t.locateFrom? (name :: place) segments := by
  rw [locateFrom?, if_pos hdir, if_neg (by rw [hidle]; decide), if_neg hparent]

/-- Segments lead on from where the segments before them have led. -/
theorem locateFrom?_append (place segments others : List Text) :
    t.locateFrom? place (segments ++ others)
      = (t.locateFrom? place segments).bind fun names => t.locateFrom? names.reverse others := by
  fun_induction locateFrom? t place segments with
  | case1 place => simp
  | case2 place segment segments hdir hidle ih =>
    rw [List.cons_append, locateFrom?_idle hdir hidle, ih]
  | case3 place segments hdir hidle ih =>
    rw [List.cons_append, locateFrom?, if_pos hdir, if_neg hidle, if_pos rfl, ih]
  | case4 place segment segments hdir hidle hparent ih =>
    rw [List.cons_append, locateFrom?_name hdir (Bool.eq_false_iff.2 hidle) hparent, ih]
  | case5 place segment segments hdir =>
    rw [List.cons_append, locateFrom?_outside (Bool.eq_false_iff.2 hdir)]
    rfl

/-- A slash at the end leads nowhere else. -/
theorem locateFrom?_slash (h : t.locateFrom? place (segments ++ [[]]) = some names) :
    t.locateFrom? place segments = some names := by
  rw [locateFrom?_append] at h
  obtain ⟨before, hbefore, hslash⟩ := Option.bind_eq_some_iff.1 h
  cases hdir : (t.at? before.reverse.reverse).any isDirectory with
  | false =>
    rw [locateFrom?_outside hdir] at hslash
    cases hslash
  | true =>
    rw [locateFrom?_idle hdir rfl, locateFrom?, List.reverse_reverse] at hslash
    rw [hbefore, hslash]

end FileTree

namespace FileSystem

open FileTree (IsName)

variable {fs : FileSystem} {d u : FileTree} {dir : FilePath} {name : Text} {names : List Text}

/-- **A name leads on from a directory**, whether the path of the directory ends
with a slash or not. -/
theorem locate?_join (hname : IsName name) (hlocate : fs.locate? dir = some names)
    (hdir : (fs.root.at? names).any FileTree.isDirectory = true) :
    fs.locate? (dir.join ⟨name⟩) = some (names ++ [name]) := by
  rw [locate?] at hlocate
  split at hlocate
  next => cases hlocate
  next hspelling =>
  have hempty : dir.spelling ≠ [] := by simpa using hspelling
  obtain ⟨hjoined, habsolute⟩ := FilePath.isAbsolute_join hname hempty
  have horigin : fs.origin (dir.join ⟨name⟩) = fs.origin dir := by rw [origin, habsolute, origin]
  obtain ⟨first, rest, hjoin, hbase⟩ := FilePath.segments_join hname hempty
  -- Before the name is looked up, the segments have led to the directory.
  have hbefore : fs.root.locateFrom? (fs.origin dir) (first :: rest) = some names := by
    rcases hbase with hbase | hbase
    · rw [← hbase, hlocate]
    · rw [hbase] at hlocate
      exact FileTree.locateFrom?_slash hlocate
  have hidle : FilePath.isIdle name = false := by
    simp [FilePath.isIdle, hname.ne_nil, hname.not_current]
  rw [← List.reverse_reverse names] at hdir
  rw [locate?, if_neg (by simpa using hjoined), horigin, hjoin, ← List.cons_append,
    FileTree.locateFrom?_append, hbefore, Option.bind_some,
    FileTree.locateFrom?_name hdir hidle hname.not_parent, FileTree.locateFrom?, List.reverse_cons,
    List.reverse_reverse]

/-- **A name leads from a directory to its entry.** -/
theorem lookup?_join (hname : IsName name) (hd : fs.lookup? dir = some d)
    (hdir : d.isDirectory = true) : fs.lookup? (dir.join ⟨name⟩) = d.child? name := by
  obtain ⟨names, hlocate, hnames⟩ := Option.bind_eq_some_iff.1 hd
  have hisDirectory : (fs.root.at? names).any FileTree.isDirectory = true := by
    rw [hnames]
    exact hdir
  rw [lookup?, locate?_join hname hlocate hisDirectory, Option.bind_some, FileTree.at?_append,
    hnames, Option.bind_some, FileTree.at?]
  cases d.child? name <;> rfl

/-- **The path of a file leads to it.** -/
theorem lookup?_below (hd : fs.lookup? dir = some d) (hproper : d.Proper)
    (hu : d.at? names = some u) : fs.lookup? (dir.below names) = some u := by
  induction names generalizing dir d with
  | nil =>
    obtain rfl := Option.some.inj hu
    exact hd
  | cons name names ih =>
    obtain ⟨e, he, hu⟩ := Option.bind_eq_some_iff.1 hu
    obtain ⟨hname, heproper, hdir⟩ := hproper.of_child? he
    have hlookup : fs.lookup? (dir.join ⟨name⟩) = some e := (lookup?_join hname hd hdir).trans he
    exact ih hlookup heproper hu

/-- What a path leads to in a proper tree is proper. -/
theorem proper_of_lookup? (h : fs.root.Proper) (hd : fs.lookup? dir = some d) : d.Proper := by
  obtain ⟨names, -, hnames⟩ := Option.bind_eq_some_iff.1 hd
  exact (h.of_at? hnames).2

/-- The path `/` leads to the root. -/
theorem lookup?_root (hroot : fs.root.isDirectory = true) :
    fs.lookup? (.ofName "/") = some fs.root := by
  have hlocate : fs.locate? (.ofName "/") = fs.root.locateFrom? [] [[], []] := rfl
  have hdir : (fs.root.at? [].reverse).any FileTree.isDirectory = true := hroot
  rw [lookup?, hlocate, FileTree.locateFrom?_idle hdir rfl, FileTree.locateFrom?_idle hdir rfl]
  rfl

/-- **Every place has an absolute path**, wherever the program runs: a slash and the names that lead
there. -/
theorem lookup?_absolute (h : fs.root.Proper) (hroot : fs.root.isDirectory = true)
    (hu : fs.root.at? names = some u) :
    fs.lookup? ((FilePath.ofName "/").below names) = some u :=
  lookup?_below (lookup?_root hroot) h hu

/-- **The working directory has the path `.`**, wherever it is. -/
theorem lookup?_current (hd : fs.root.at? fs.here = some d) (hdir : d.isDirectory = true) :
    fs.lookup? (.ofName ".") = some d := by
  have hlocate : fs.locate? (.ofName ".") = fs.root.locateFrom? fs.here.reverse [['.']] := rfl
  have hhere : (fs.root.at? fs.here.reverse.reverse).any FileTree.isDirectory = true := by
    rw [List.reverse_reverse, hd]
    exact hdir
  rw [lookup?, hlocate, FileTree.locateFrom?_idle hhere rfl, FileTree.locateFrom?,
    List.reverse_reverse]
  exact hd

end FileSystem

namespace FileTree

variable {t : FileTree}

/-! ## What the walk finds -/

variable (accepts : FilePath → Bool) (p : FilePath)

/-- The files below some entries are those of each of them, in their order. -/
theorem filesBelow_eq (entries : List (Text × FileTree)) :
    filesBelow accepts p entries = entries.flatMap fun e => filesAt accepts (p.join ⟨e.1⟩) e.2 := by
  induction entries with
  | nil => rw [filesBelow, List.flatMap_nil]
  | cons e entries ih => rw [filesBelow, ih, List.flatMap_cons]

variable {accepts p} {q : FilePath}

/-- **The walk finds the files that the tree has below a path**, at any depth,
if they are accepted. -/
theorem mem_filesAt (ht : t.Proper) :
    q ∈ filesAt accepts p t ↔
      accepts q = true ∧ ∃ names bytes, t.at? names = some (.file bytes) ∧ q = p.below names := by
  induction ht generalizing p with
  | file bytes =>
    rw [filesAt]
    constructor
    · intro hq
      split at hq
      next haccepts =>
        obtain rfl := List.mem_singleton.1 hq
        exact ⟨haccepts, [], bytes, rfl, rfl⟩
      next => cases hq
    · rintro ⟨haccepts, names, bytes', hat, rfl⟩
      -- No names lead on from a file.
      cases names with
      | nil => exact (if_pos haccepts).symm ▸ List.mem_singleton_self p
      | cons name names => cases hat
  | @directory entries names distinct below ih =>
    rw [filesAt, filesBelow_eq, List.mem_flatMap]
    constructor
    · rintro ⟨e, he, hq⟩
      obtain ⟨haccepts, names, bytes, hat, rfl⟩ := (ih e he).1 hq
      refine ⟨haccepts, e.1 :: names, bytes, ?_, rfl⟩
      rw [at?, (child?_eq_some_iff distinct).2 he]
      exact hat
    · rintro ⟨haccepts, names, bytes, hat, rfl⟩
      cases names with
      | nil => cases hat
      | cons name names =>
        obtain ⟨u, hu, hat⟩ := Option.bind_eq_some_iff.1 hat
        have hmem := (child?_eq_some_iff distinct).1 hu
        exact ⟨(name, u), hmem, (ih _ hmem).2 ⟨haccepts, names, bytes, hat, rfl⟩⟩

/-- Two paths that the walk finds have different places in the order of paths. -/
theorem eq_of_key_eq {q' : FilePath} (ht : t.Proper) (hq : q ∈ filesAt accepts p t)
    (hq' : q' ∈ filesAt accepts p t) (hkey : q.key = q'.key) : q = q' := by
  obtain ⟨-, names, bytes, hat, rfl⟩ := (mem_filesAt ht).1 hq
  obtain ⟨-, names', bytes', hat', rfl⟩ := (mem_filesAt ht).1 hq'
  rw [FilePath.key_below_inj (ht.of_at? hat).1 (ht.of_at? hat').1 hkey]

/-- **The walk finds no file twice.** -/
theorem nodup_filesAt (ht : t.Proper) : (filesAt accepts p t).Nodup := by
  induction ht generalizing p with
  | file bytes =>
    rw [filesAt]
    split <;> simp
  | @directory entries names distinct below ih =>
    rw [filesAt, filesBelow_eq, List.nodup_flatMap]
    refine ⟨fun e he => ih e he, ?_⟩
    -- What is found below two entries differs in the name that comes first.
    refine List.Pairwise.imp_of_mem ?_ (List.pairwise_map.1 distinct)
    intro e e' he he' hne q hq hq'
    obtain ⟨-, ns, bytes, hat, rfl⟩ := (mem_filesAt (below e he)).1 hq
    obtain ⟨-, ns', bytes', hat', heq⟩ := (mem_filesAt (below e' he')).1 hq'
    have hnames := List.forall_mem_cons.2 ⟨names e he, ((below e he).of_at? hat).1⟩
    have hnames' := List.forall_mem_cons.2 ⟨names e' he', ((below e' he').of_at? hat').1⟩
    have hcons : e.1 :: ns = e'.1 :: ns' :=
      FilePath.key_below_inj hnames hnames' (congrArg FilePath.key heq)
    exact hne (List.cons.inj hcons).1

end FileTree

end PascalAtlas
