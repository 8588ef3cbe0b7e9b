import CrazyCode.Library.Text
import Mathlib.Data.List.DropRight
import Mathlib.Data.List.Infix
import Mathlib.Logic.Function.Basic

/-!
# A POSIX file tree

A file or directory is at a `Location`, the names on the way down to it from `/`. A `FileSystem`
says what is at each location, and carries the facts that make it a tree: the root is a directory,
whatever exists is in a directory, and its name has no slash, no zero byte, and is neither `.` nor
`..`. There are no symbolic links.

A path is a byte string. The system sees it up to its first zero byte, and walks its components from
the root or from the working directory: every component needs the walk to stand in a directory, an
empty one and `.` stay there, `..` climbs to the parent (the root is its own), and a name descends
(`walk`). Where a walk arrives is a matter of the components alone (`walk_eq_some`): it is their
`normalize`d location.

The operations are the ones of a program that checks, reads, writes and removes files by path. They
list in `touched` every location that they create, overwrite or remove. The frame lemmas say that
nothing else changes (`set_node_of_ne`) and that directories stay (`set_directory`), so that a walk
that succeeds goes on to succeed (`resolve_mono`).
-/

namespace CrazyCode.Posix

open Text

/-- The names on the way from `/` down to a file or directory. -/
abbrev Location := List Str

/-- What is at a location. -/
inductive Node where
  | directory
  | file (content : Str)
deriving DecidableEq, Repr

/-- A name that a directory entry can have. -/
def PlainName (name : Str) : Prop :=
  name ≠ [] ∧ name ≠ ['.'] ∧ name ≠ ['.', '.'] ∧ '/' ∉ name ∧ nul ∉ name

instance (name : Str) : Decidable (PlainName name) := inferInstanceAs (Decidable (_ ∧ _))

/-- A file tree, its working directory, and the locations that operations have touched so far. -/
structure FileSystem where
  /-- What is at each location. -/
  node : Location → Option Node
  /-- The working directory, from which a relative path starts. -/
  cwd : Location
  /-- The locations created, overwritten or removed so far, in order. -/
  touched : List Location
  root_directory : node [] = some .directory
  parent_directory : ∀ loc name, node (loc ++ [name]) ≠ none → node loc = some .directory
  plain_name : ∀ loc name, node (loc ++ [name]) ≠ none → PlainName name

/-- A location strictly below another. -/
def Below (top loc : Location) : Prop := top <+: loc ∧ loc ≠ top

instance (top loc : Location) : Decidable (Below top loc) := inferInstanceAs (Decidable (_ ∧ _))

/-- What stands behind a location, by one name or more, is strictly below it. -/
theorem below_append (top : Location) {names : List Str} (h : names ≠ []) :
    Below top (top ++ names) :=
  ⟨List.prefix_append _ _, fun heq => h (by simpa using heq)⟩

/-! ## Paths -/

/-- One component of a path: an empty one and `.` stay, `..` climbs, a name descends. -/
def climb (loc : Location) (component : Str) : Location :=
  if component = [] ∨ component = ['.'] then loc
  -- `[].dropLast` is `[]`: the root is its own parent.
  else if component = ['.', '.'] then loc.dropLast
  else loc ++ [component]

/-- The location that components lead to, when every `.` and `..` is resolved. -/
def normalize (loc : Location) (components : List Str) : Location := components.foldl climb loc

/-- A plain name descends. -/
theorem climb_plain {name : Str} (h : PlainName name) (loc : Location) :
    climb loc name = loc ++ [name] := by
  obtain ⟨h0, h1, h2, -, -⟩ := h
  simp [climb, h0, h1, h2]

/-- A step that leads to a place where nothing is leads to a plain name, when it starts in a
directory. -/
theorem climb_of_none {node : Location → Option Node} {loc : Location} {component : Str}
    (hslash : '/' ∉ component) (hnul : nul ∉ component) (hloc : node loc ≠ none)
    (hparent : node loc.dropLast ≠ none) (h : node (climb loc component) = none) :
    PlainName component := by
  by_contra hplain
  unfold climb at h
  split at h
  · exact hloc h
  · next hstay =>
    split at h
    · exact hparent h
    · next hup =>
      rw [not_or] at hstay
      exact hplain ⟨hstay.1, hstay.2, hup, hslash, hnul⟩

/-- A component without a slash and without a zero byte stays, climbs, or is a plain name. -/
theorem plain_of_climb {component : Str} (hslash : '/' ∉ component) (hnul : nul ∉ component) :
    component = [] ∨ component = ['.'] ∨ component = ['.', '.'] ∨ PlainName component := by
  unfold PlainName
  tauto

/-- One component behind others that climb some levels and then descend along names: `..` takes the
last name away, and climbs one level more when there is none. -/
def climbFrom (p : ℕ × List Str) (component : Str) : ℕ × List Str :=
  if component = [] ∨ component = ['.'] then p
  else if component = ['.', '.'] then
    if p.2 = [] then (p.1 + 1, []) else (p.1, p.2.dropLast)
  else (p.1, p.2 ++ [component])

/-- The levels that components climb above the place where they start, and the names that they
descend from there, when every `.` and `..` is resolved among them. -/
def ascent (components : List Str) : ℕ × List Str := components.foldl climbFrom (0, [])

/-- The parent of a place some levels up is one more level up. -/
theorem dropLast_rdrop (loc : Location) (k : ℕ) : (loc.rdrop k).dropLast = loc.rdrop (k + 1) := by
  rw [← List.rdrop_add]
  simp [List.rdrop, List.dropLast_eq_take]

/-- Components lead as many levels up as they climb, and then down along their names. -/
theorem normalize_eq_ascent (loc : Location) (components : List Str) :
    normalize loc components = loc.rdrop (ascent components).1 ++ (ascent components).2 := by
  -- From the left, since `..` undoes the component before it.
  induction components using List.reverseRecOn with
  | nil => simp [normalize, ascent]
  | append_singleton components c ih =>
    have hnormalize : normalize loc (components ++ [c]) = climb (normalize loc components) c := by
      simp [normalize]
    have hascent : ascent (components ++ [c]) = climbFrom (ascent components) c := by
      simp [ascent]
    rw [hnormalize, hascent, ih]
    obtain ⟨k, names⟩ := ascent components
    unfold climb climbFrom
    split
    · rfl
    · split
      · -- `..` takes the last name back, or climbs when there is none.
        by_cases hnames : names = []
        · simp [hnames, dropLast_rdrop]
        · simp [hnames, List.dropLast_append_of_ne_nil]
      · simp

/-- Components lead below the place where they start when they come back along the last names of its
own path, as many as they climbed, and go on. -/
def StaysBelow (loc : Location) (components : List Str) : Prop :=
  loc.rtake (ascent components).1 <+: (ascent components).2 ∧
    (ascent components).2 ≠ loc.rtake (ascent components).1

instance (loc : Location) (components : List Str) : Decidable (StaysBelow loc components) :=
  inferInstanceAs (Decidable (_ ∧ _))

/-- Whether components lead below the place where they start can be told from the levels that they
climb and the names that they descend. -/
theorem below_normalize_iff {loc : Location} {components : List Str} :
    Below loc (normalize loc components) ↔ StaysBelow loc components := by
  rw [normalize_eq_ascent, Below, StaysBelow]
  -- The part of the location above the climb is common to both sides.
  have hloc : loc.rdrop (ascent components).1 ++ loc.rtake (ascent components).1 = loc := by
    simp [List.rdrop, List.rtake]
  generalize loc.rdrop (ascent components).1 = above, loc.rtake (ascent components).1 = back
    at hloc ⊢
  subst hloc
  rw [List.prefix_append_right_inj, ne_eq, List.append_right_inj]

namespace FileSystem

/-- One step of a walk, which must stand in a directory. -/
def enter (fs : FileSystem) (loc : Location) (component : Str) : Option Location :=
  if fs.node loc = some .directory then some (climb loc component) else none

/-- A walk from a location along components. -/
def walk (fs : FileSystem) (loc : Location) (components : List Str) : Option Location :=
  components.foldlM fs.enter loc

/-- The location that a path names, if its directories exist. The last name of the path need not
exist. -/
def resolve (fs : FileSystem) (path : Str) : Option Location :=
  let path := cstr path
  -- The empty path is `ENOENT`, and names no directory.
  if path = [] then none
  else fs.walk (if path.head? = some '/' then [] else fs.cwd) (path.splitOn '/')

/-- What a path names. -/
def lookup (fs : FileSystem) (path : Str) : Option Node := (fs.resolve path).bind fs.node

/-- `boost::filesystem::exists`, when it does not throw (`tooLong`). -/
def pathExists (fs : FileSystem) (path : Str) : Bool := (fs.lookup path).isSome

/-- `boost::filesystem::is_directory`, when it does not throw. -/
def isDirectory (fs : FileSystem) (path : Str) : Bool := fs.lookup path = some .directory

/-- The bytes of a regular file. -/
def readFile (fs : FileSystem) (path : Str) : Option Str :=
  match fs.lookup path with
  | some (.file content) => some content
  | _ => none

/-- `boost::filesystem::is_regular_file`. -/
def isRegularFile (fs : FileSystem) (path : Str) : Bool := (fs.readFile path).isSome

/-- A walk comes to a name of more than `NAME_MAX` bytes, which it looks for in a directory. -/
def walksLong (fs : FileSystem) (loc : Location) : List Str → Bool
  | [] => false
  | c :: cs => fs.node loc = some .directory && (255 < c.length || fs.walksLong (climb loc c) cs)

/-- `ENAMETOOLONG`: a path has `PATH_MAX` bytes or more, with the zero byte behind it, or a name in
it is too long. `exists` and `is_directory` throw for it, and for no other error of a tree without
links in which everything can be read. -/
def tooLong (fs : FileSystem) (path : Str) : Bool :=
  let path := cstr path
  4096 ≤ path.length ||
    fs.walksLong (if path.head? = some '/' then [] else fs.cwd) (path.splitOn '/')

/-- A path is within the limits of the system. -/
def WithinLimits (path : Str) : Prop :=
  path.length < 4096 ∧ ∀ name ∈ path.splitOn '/', name.length ≤ 255

instance (path : Str) : Decidable (WithinLimits path) := inferInstanceAs (Decidable (_ ∧ _))

/-- A walk along names that are not too long does not come to one that is. -/
theorem walksLong_of_length {components : List Str} (h : ∀ name ∈ components, name.length ≤ 255)
    (fs : FileSystem) (loc : Location) : fs.walksLong loc components = false := by
  induction components generalizing loc with
  | nil => rfl
  | cons c cs ih =>
    obtain ⟨hc, hcs⟩ := List.forall_mem_cons.mp h
    have hshort : decide (255 < c.length) = false := decide_eq_false (Nat.not_lt.mpr hc)
    rw [walksLong, ih hcs, hshort, Bool.or_false, Bool.and_false]

/-- Within the limits of the system nothing is too long, whatever is there. -/
theorem tooLong_of_withinLimits {path : Str} (hnul : nul ∉ path) (h : WithinLimits path)
    (fs : FileSystem) : fs.tooLong path = false := by
  unfold tooLong
  rw [cstr_of_not_mem hnul]
  simp only [walksLong_of_length h.2, Bool.or_false, decide_eq_false_iff_not, not_le]
  exact h.1

/-- A walk arrives where its components lead. -/
theorem walk_eq_some {fs : FileSystem} {loc loc' : Location} {components : List Str}
    (h : fs.walk loc components = some loc') : loc' = normalize loc components := by
  induction components generalizing loc with
  | nil => simpa [walk, normalize] using h.symm
  | cons c cs ih =>
    simp only [walk, List.foldlM_cons, enter] at h
    split at h
    · exact ih h
    · simp at h

/-- A walk with one component left. -/
theorem walk_singleton (fs : FileSystem) (loc : Location) (component : Str) :
    fs.walk loc [component] = fs.enter loc component := by
  simp [walk]

/-- A walk in two parts. -/
theorem walk_append (fs : FileSystem) (loc : Location) (cs ds : List Str) :
    fs.walk loc (cs ++ ds) = (fs.walk loc cs).bind fun mid => fs.walk mid ds := by
  simp [walk, List.foldlM_append]

/-- The location that a path has when every `.` and `..` in it is resolved, whether or not its
directories exist. -/
def place (fs : FileSystem) (path : Str) : Location :=
  normalize (if (cstr path).head? = some '/' then [] else fs.cwd) ((cstr path).splitOn '/')

/-- What a path names is at its location. -/
theorem place_eq_of_resolve {fs : FileSystem} {path : Str} {loc : Location}
    (h : fs.resolve path = some loc) : fs.place path = loc := by
  unfold resolve at h
  simp only at h
  split at h
  · cases h
  · exact (walk_eq_some h).symm

/-- A path below a directory's path is at the components' location from the directory. -/
theorem place_append {fs : FileSystem} {root : Str} (hnul : nul ∉ root) (rest : Str) :
    fs.place (root ++ '/' :: rest) =
      normalize (fs.place (root ++ ['/'])) ((cstr rest).splitOn '/') := by
  have hhead : (root ++ '/' :: cstr rest).head? = (root ++ ['/']).head? := by
    cases root <;> rfl
  -- The empty component behind the last slash stays.
  have hroot : ∀ loc, normalize loc (root.splitOn '/') =
      normalize loc ((root ++ ['/']).splitOn '/') :=
    fun loc => by
      rw [List.splitOn_append_cons_self]
      simp [normalize, climb]
  have hcstr : cstr (root ++ ['/']) = root ++ ['/'] := cstr_append_cons hnul (by decide) []
  unfold place
  rw [cstr_append_cons hnul (by decide), hcstr, hhead]
  generalize (if (root ++ ['/']).head? = some '/' then [] else fs.cwd) = start
  calc normalize start ((root ++ '/' :: cstr rest).splitOn '/')
      = normalize start (root.splitOn '/' ++ (cstr rest).splitOn '/') := by
        rw [List.splitOn_append_cons_self]
    _ = normalize (normalize start (root.splitOn '/')) ((cstr rest).splitOn '/') :=
        List.foldl_append
    _ = normalize (normalize start ((root ++ ['/']).splitOn '/')) ((cstr rest).splitOn '/') := by
        rw [hroot]

/-- A path behind a zero byte is at the location of the path before it. -/
theorem place_append_of_mem {fs : FileSystem} {root : Str} (hnul : nul ∈ root) (rest : Str) :
    fs.place (root ++ rest) = fs.place root := by
  unfold place
  rw [cstr_append_of_mem hnul]

/-- A walk stands in a directory before each component. -/
theorem walk_cons (fs : FileSystem) (loc : Location) (c : Str) (cs : List Str) :
    fs.walk loc (c :: cs) =
      if fs.node loc = some .directory then fs.walk (climb loc c) cs else none := by
  simp only [walk, List.foldlM_cons, enter]
  split <;> rfl

/-- A path below a directory's path is walked from the directory. -/
theorem resolve_append {fs : FileSystem} {root : Str} {top : Location} (hnul : nul ∉ root)
    (h : fs.resolve root = some top) (rest : Str) :
    fs.resolve (root ++ '/' :: rest) = fs.walk top ((cstr rest).splitOn '/') := by
  unfold resolve at h ⊢
  rw [cstr_of_not_mem hnul] at h
  rw [cstr_append_cons hnul (by decide)]
  cases root with
  | nil => simp at h
  | cons c root =>
    -- Both paths begin with the same byte, and so both are absolute or both relative.
    simp only [reduceCtorEq, if_false, List.cons_append, List.head?_cons, Option.some.injEq] at h ⊢
    rw [← List.cons_append, List.splitOn_append_cons_self, walk_append, h, Option.bind_some]

/-- A path behind a zero byte is the path before it. -/
theorem resolve_append_of_mem {fs : FileSystem} {root : Str} (hnul : nul ∈ root) (rest : Str) :
    fs.resolve (root ++ rest) = fs.resolve root := by
  unfold resolve
  rw [cstr_append_of_mem hnul]

/-- A path with one more name in it leads one step on, unless the first part has a zero byte, which
hides the name. -/
theorem resolve_child {fs : FileSystem} {root : Str} {top : Location}
    (h : fs.resolve root = some top) (hdir : fs.node top = some .directory) {name : Str}
    (hslash : '/' ∉ name) :
    fs.resolve (root ++ '/' :: name) =
      some (if nul ∈ root then top else climb top (cstr name)) := by
  by_cases hnul : nul ∈ root
  · rw [resolve_append_of_mem hnul, h, if_pos hnul]
  · have hname : '/' ∉ cstr name := fun hmem =>
      hslash ((List.takeWhile_sublist _).subset hmem)
    rw [resolve_append hnul h, List.splitOn_eq_singleton hname, walk_singleton, enter, if_pos hdir,
      if_neg hnul]

/-- A path with a plain name behind it leads into the directory that it names. -/
theorem resolve_name {fs : FileSystem} {path : Str} {loc : Location} (hnul : nul ∉ path)
    (h : fs.resolve path = some loc) {name : Str} (hname : PlainName name) :
    fs.resolve (path ++ '/' :: name) =
      if fs.node loc = some .directory then some (loc ++ [name]) else none := by
  rw [resolve_append hnul h, cstr_of_not_mem hname.2.2.2.2,
    List.splitOn_eq_singleton hname.2.2.2.1, walk_singleton, enter, climb_plain hname]

/-- A path with a plain name and another name in it leads two steps on, when the first one leads to
a directory. -/
theorem resolve_grandchild {fs : FileSystem} {root : Str} {top : Location} (hnul : nul ∉ root)
    (h : fs.resolve root = some top) (hdir : fs.node top = some .directory) {dir name : Str}
    (hplain : PlainName dir) (hslash : '/' ∉ name) :
    fs.resolve (root ++ '/' :: (dir ++ '/' :: name)) =
      if fs.node (top ++ [dir]) = some .directory then some (climb (top ++ [dir]) (cstr name))
      else none := by
  have hname : '/' ∉ cstr name := not_mem_cstr hslash
  rw [resolve_append hnul h, cstr_append_cons hplain.2.2.2.2 (by decide),
    List.splitOn_append_cons_self,
    List.splitOn_eq_singleton hplain.2.2.2.1, List.splitOn_eq_singleton hname,
    List.singleton_append, walk_cons, if_pos hdir, climb_plain hplain, walk_singleton, enter]

/-- What exists below the root of the tree is in a directory. -/
theorem dropLast_directory (fs : FileSystem) {loc : Location} (h : fs.node loc ≠ none)
    (hne : loc ≠ []) : fs.node loc.dropLast = some .directory := by
  obtain ⟨parent, name, rfl⟩ := List.eq_nil_or_concat' loc |>.resolve_left hne
  rw [List.dropLast_concat]
  exact fs.parent_directory _ _ h

/-- What stands above the root of the tree, or anything else, by one name is a directory, too. -/
theorem dropLast_of_directory (fs : FileSystem) {loc : Location}
    (h : fs.node loc = some .directory) : fs.node loc.dropLast = some .directory := by
  by_cases hne : loc = []
  · rw [hne]
    exact fs.root_directory
  · exact fs.dropLast_directory (by rw [h]; simp) hne

/-! ## Operations -/

/-- A location at which a file can be made, overwritten or removed: it is in a directory, is not a
directory itself, and its name is plain. -/
def Writable (fs : FileSystem) (loc : Location) : Prop :=
  loc ≠ [] ∧ fs.node loc.dropLast = some .directory ∧ fs.node loc ≠ some .directory ∧
    ∀ name ∈ loc.getLast?, PlainName name

instance (fs : FileSystem) (loc : Location) : Decidable (fs.Writable loc) :=
  inferInstanceAs (Decidable (_ ∧ _))

/-- The tree with another node at a writable location. -/
def put (fs : FileSystem) (loc : Location) (n : Option Node) (h : fs.Writable loc) :
    FileSystem where
  node := Function.update fs.node loc n
  cwd := fs.cwd
  touched := fs.touched ++ [loc]
  root_directory := by
    rw [Function.update_of_ne h.1.symm]
    exact fs.root_directory
  parent_directory := by
    intro parent name hnode
    -- The parent is not `loc`, which is no directory.
    have hparent : fs.node parent = some .directory := by
      by_cases heq : parent ++ [name] = loc
      · have hparent : loc.dropLast = parent := by rw [← heq, List.dropLast_concat]
        exact hparent ▸ h.2.1
      · rw [Function.update_of_ne heq] at hnode
        exact fs.parent_directory _ _ hnode
    rw [Function.update_of_ne]
    · exact hparent
    · rintro rfl
      exact h.2.2.1 hparent
  plain_name := by
    intro parent name hnode
    by_cases heq : parent ++ [name] = loc
    · exact h.2.2.2 name (by rw [← heq]; simp)
    · rw [Function.update_of_ne heq] at hnode
      exact fs.plain_name _ _ hnode

/-- The tree with another node at a location, and the same tree if that is not possible. -/
def set (fs : FileSystem) (loc : Location) (n : Option Node) : FileSystem :=
  if h : fs.Writable loc then fs.put loc n h else fs

/-- `boost::filesystem::create_directory`; `none` is an error code. -/
def createDirectory (fs : FileSystem) (path : Str) : Option FileSystem :=
  match fs.resolve path with
  | some loc =>
    -- `EEXIST` for whatever is there, and an error for `.` and `..`, too.
    if fs.Writable loc ∧ fs.node loc = none then some (fs.set loc (some .directory)) else none
  | none => none

/-- A `std::ofstream` opened at a path, the bytes written to it, and closed. A stream that does not
open writes nothing. -/
def writeFile (fs : FileSystem) (path content : Str) : FileSystem :=
  match fs.resolve path with
  -- `set` leaves a directory as it is: the stream does not open on one.
  | some loc => fs.set loc (some (.file content))
  | none => fs

/-- `boost::filesystem::remove` of a file, and whether there was one. -/
def removeFile (fs : FileSystem) (path : Str) : Bool × FileSystem :=
  match fs.resolve path with
  | some loc =>
    if fs.Writable loc ∧ fs.node loc ≠ none then (true, fs.set loc none) else (false, fs)
  | none => (false, fs)

/-- A tree with no files, and `/` as the working directory. -/
def empty : FileSystem where
  node loc := if loc = [] then some .directory else none
  cwd := []
  touched := []
  root_directory := rfl
  parent_directory := by simp
  plain_name := by simp

/-! ## Frame lemmas -/

section

variable {fs : FileSystem} {loc : Location} {n : Option Node}

@[simp] theorem set_cwd (fs : FileSystem) (loc : Location) (n : Option Node) :
    (fs.set loc n).cwd = fs.cwd := by
  unfold set
  split <;> rfl

/-- What is set at a writable location is there. -/
theorem set_node_self (h : fs.Writable loc) : (fs.set loc n).node loc = n := by
  simp [set, h, put]

/-- Nothing changes at another location. -/
theorem set_node_of_ne {loc' : Location} (h : loc' ≠ loc) :
    (fs.set loc n).node loc' = fs.node loc' := by
  unfold set
  split
  · exact Function.update_of_ne h _ _
  · rfl

/-- A change at a writable location is the only one touched. -/
theorem set_touched (h : fs.Writable loc) : (fs.set loc n).touched = fs.touched ++ [loc] := by
  simp [set, h, put]

/-- A location that is not writable keeps the tree as it is. -/
theorem set_of_not_writable (h : ¬ fs.Writable loc) : fs.set loc n = fs := by
  simp [set, h]

/-- What is at a location after a change: what was there before, unless that is what was set. -/
theorem set_node_cases (fs : FileSystem) (loc : Location) (n : Option Node) (loc' : Location) :
    (fs.set loc n).node loc' = fs.node loc' ∨ loc' = loc ∧ (fs.set loc n).node loc' = n := by
  by_cases hw : fs.Writable loc
  · by_cases heq : loc' = loc
    · exact .inr ⟨heq, by rw [heq, set_node_self hw]⟩
    · exact .inl (set_node_of_ne heq)
  · rw [set_of_not_writable hw]
    exact .inl rfl

/-- Nothing changes at or below a location that is not above the change. -/
theorem set_node_append {top : Location} (h : ¬ top <+: loc) (names : List Str) :
    (fs.set loc n).node (top ++ names) = fs.node (top ++ names) := by
  refine set_node_of_ne ?_
  rintro rfl
  exact h (List.prefix_append _ _)

/-- Directories stay. -/
theorem set_directory {loc' : Location} (h : fs.node loc' = some .directory) :
    (fs.set loc n).node loc' = some .directory := by
  by_cases hw : fs.Writable loc
  · rw [set_node_of_ne]
    · exact h
    · rintro rfl
      exact hw.2.2.1 h
  · rw [set_of_not_writable hw]
    exact h

/-- What exists and is no directory is writable. -/
theorem writable_of_file {content : Str} (h : fs.node loc = some (.file content)) :
    fs.Writable loc := by
  have hne : loc ≠ [] := by
    rintro rfl
    rw [fs.root_directory] at h
    cases h
  refine ⟨hne, fs.dropLast_directory (by rw [h]; simp) hne, by rw [h]; simp, ?_⟩
  intro name hname
  obtain ⟨parent, last, rfl⟩ := List.eq_nil_or_concat' loc |>.resolve_left hne
  simp only [List.getLast?_append, List.getLast?_singleton, Option.some_or, Option.mem_def,
    Option.some.injEq] at hname
  subst hname
  exact fs.plain_name parent last (by rw [h]; simp)

/-- A plain name in a directory is writable, if it is not a directory itself. -/
theorem writable_of_plain {name : Str} (hname : PlainName name)
    (hdir : fs.node loc = some .directory) (h : fs.node (loc ++ [name]) ≠ some .directory) :
    fs.Writable (loc ++ [name]) :=
  ⟨by simp, by rwa [List.dropLast_concat], h, by simpa using hname⟩

end

/-- What a path names is a directory, or it is writable. -/
theorem writable_of_resolve {fs : FileSystem} {path : Str} {loc : Location}
    (h : fs.resolve path = some loc) (hdir : fs.node loc ≠ some .directory) : fs.Writable loc := by
  unfold resolve at h
  simp only at h
  split at h
  · cases h
  -- The last step of the walk starts in a directory, so it leads to a name.
  obtain ⟨components, c, hsplit⟩ := List.eq_nil_or_concat' ((cstr path).splitOn '/')
    |>.resolve_left (List.splitOn_ne_nil _ _)
  rw [hsplit, walk_append] at h
  obtain ⟨parent, -, hlast⟩ := Option.bind_eq_some_iff.mp h
  rw [walk_singleton, enter] at hlast
  split at hlast
  · next hparent =>
    obtain rfl := Option.some.inj hlast
    have hc : c ∈ (cstr path).splitOn '/' := by
      rw [hsplit]
      simp
    rcases plain_of_climb (not_mem_of_mem_splitOn hc)
      (fun hnul => nul_not_mem_cstr path ((sublist_of_mem_splitOn hc).subset hnul)) with
      rfl | rfl | rfl | hplain
    -- An empty last component, `.` and `..` all arrive in a directory.
    · exact absurd hparent hdir
    · exact absurd hparent hdir
    · exact absurd (fs.dropLast_of_directory hparent) hdir
    · rw [climb_plain hplain] at hdir ⊢
      exact writable_of_plain hplain hparent hdir
  · cases hlast

/-- What a path names has the last name of the path, unless it is a directory. -/
theorem getLast?_of_resolve {fs : FileSystem} {path name : Str} {loc : Location}
    (hpath : nul ∉ path) (hname : nul ∉ name) (hslash : '/' ∉ name)
    (h : fs.resolve (path ++ '/' :: name) = some loc) (hdir : fs.node loc ≠ some .directory) :
    loc.getLast? = some name := by
  have hwalk : ∃ start, fs.walk start (path.splitOn '/' ++ [name]) = some loc := by
    unfold resolve at h
    rw [cstr_append_cons hpath (by decide), cstr_of_not_mem hname] at h
    simp only at h
    split at h
    · cases h
    · rw [List.splitOn_append_cons_self, List.splitOn_eq_singleton hslash] at h
      exact ⟨_, h⟩
  obtain ⟨start, hwalk⟩ := hwalk
  rw [walk_append] at hwalk
  obtain ⟨parent, -, hlast⟩ := Option.bind_eq_some_iff.mp hwalk
  rw [walk_singleton, enter] at hlast
  split at hlast
  · next hparent =>
    obtain rfl := Option.some.inj hlast
    rcases plain_of_climb hslash hname with rfl | rfl | rfl | hplain
    -- An empty last component, `.` and `..` all arrive in a directory.
    · exact absurd hparent hdir
    · exact absurd hparent hdir
    · exact absurd (fs.dropLast_of_directory hparent) hdir
    · rw [climb_plain hplain, List.getLast?_concat]
  · cases hlast

/-- A directory that is created is one new name, which its path names. -/
theorem createDirectory_eq_some {fs fs' : FileSystem} {path : Str}
    (h : fs.createDirectory path = some fs') :
    ∃ loc, fs.resolve path = some loc ∧ fs.Writable loc ∧ fs.node loc = none ∧
      fs' = fs.set loc (some .directory) := by
  unfold createDirectory at h
  split at h
  · next loc hloc =>
    split at h
    · next hcond => exact ⟨loc, hloc, hcond.1, hcond.2, (Option.some.inj h).symm⟩
    · cases h
  · cases h

/-- A `std::ofstream` opens at a path: the path names something in a directory, and that is no
directory itself. -/
def Opens (fs : FileSystem) (path : Str) : Prop :=
  ∃ loc, fs.resolve path = some loc ∧ fs.node loc ≠ some .directory

/-- Writing a file is a change at what its path names, unless that is a directory. -/
theorem writeFile_eq {fs : FileSystem} {path : Str} {loc : Location}
    (h : fs.resolve path = some loc) (content : Str) :
    fs.writeFile path content = fs.set loc (some (.file content)) := by
  simp [writeFile, h]

/-- Nothing is written where a directory is. -/
theorem writeFile_directory {fs : FileSystem} {path : Str} {loc : Location}
    (h : fs.resolve path = some loc) (hdir : fs.node loc = some .directory) (content : Str) :
    fs.writeFile path content = fs := by
  rw [writeFile_eq h, set_of_not_writable fun hw => hw.2.2.1 hdir]

/-- Removing a file is a change at what its path names. -/
theorem removeFile_eq {fs : FileSystem} {path content : Str} {loc : Location}
    (h : fs.resolve path = some loc) (hfile : fs.node loc = some (.file content)) :
    fs.removeFile path = (true, fs.set loc none) := by
  have hnode : fs.node loc ≠ none := by
    rw [hfile]
    simp
  simp [removeFile, h, writable_of_file hfile, hnode]

/-- A path names something when it names a location, and something is there. -/
theorem lookup_eq_some {fs : FileSystem} {path : Str} {n : Node} :
    fs.lookup path = some n ↔ ∃ loc, fs.resolve path = some loc ∧ fs.node loc = some n :=
  Option.bind_eq_some_iff

/-- What is at the location that a path names. -/
theorem lookup_eq {fs : FileSystem} {path : Str} {loc : Location} (h : fs.resolve path = some loc) :
    fs.lookup path = fs.node loc := by
  rw [lookup, h, Option.bind_some]

/-- The bytes that are read are those of the file that a path names. -/
theorem readFile_eq_some {fs : FileSystem} {path content : Str} :
    fs.readFile path = some content ↔ fs.lookup path = some (.file content) := by
  unfold readFile
  cases hlookup : fs.lookup path with
  | none => simp
  | some n => cases n <;> simp

/-- A path names a regular file when a file is at its location. -/
theorem isRegularFile_iff {fs : FileSystem} {path : Str} :
    fs.isRegularFile path = true ↔ ∃ content, fs.lookup path = some (.file content) := by
  rw [isRegularFile, Option.isSome_iff_exists]
  exact exists_congr fun _ => readFile_eq_some

/-- A path names a directory when one is at its location. -/
theorem isDirectory_iff {fs : FileSystem} {path : Str} :
    fs.isDirectory path = true ↔ fs.lookup path = some .directory := by
  rw [isDirectory, decide_eq_true_eq]

/-- A walk through directories that stay goes on to succeed. -/
theorem walk_mono {fs fs' : FileSystem}
    (hdir : ∀ loc, fs.node loc = some .directory → fs'.node loc = some .directory)
    {loc loc' : Location} {components : List Str} (h : fs.walk loc components = some loc') :
    fs'.walk loc components = some loc' := by
  induction components generalizing loc with
  | nil => exact h
  | cons c cs ih =>
    rw [walk_cons] at h ⊢
    split at h
    · next hloc =>
      rw [if_pos (hdir _ hloc)]
      exact ih h
    · cases h

/-- A path goes on to name the same location when the working directory and the directories
stay. -/
theorem resolve_mono {fs fs' : FileSystem} (hcwd : fs'.cwd = fs.cwd)
    (hdir : ∀ loc, fs.node loc = some .directory → fs'.node loc = some .directory)
    {path : Str} {loc : Location} (h : fs.resolve path = some loc) :
    fs'.resolve path = some loc := by
  unfold resolve at h ⊢
  simp only at h ⊢
  split at h
  · cases h
  · next hne =>
    rw [if_neg hne, hcwd]
    exact walk_mono hdir h

/-- A path goes on to name the same location when one location changes. -/
theorem resolve_set {fs : FileSystem} {path : Str} {loc : Location}
    (h : fs.resolve path = some loc) (loc' : Location) (n : Option Node) :
    (fs.set loc' n).resolve path = some loc :=
  resolve_mono (set_cwd _ _ _) (fun _ hdir => set_directory hdir) h

/-- A path with a slash behind it names what it names without, if that is a directory. -/
theorem resolve_append_slash {fs : FileSystem} {path : Str} (hne : path ≠ []) (hnul : nul ∉ path) :
    fs.resolve (path ++ ['/']) =
      (fs.resolve path).bind fun loc =>
        if fs.node loc = some .directory then some loc else none := by
  have hsplit : (path ++ ['/']).splitOn '/' = path.splitOn '/' ++ [[]] :=
    List.splitOn_append_cons_self ..
  have hhead : (path ++ ['/']).head? = path.head? := List.head?_append_of_ne_nil path hne
  have hcstr : cstr (path ++ ['/']) = path ++ ['/'] := cstr_append_cons hnul (by decide) []
  unfold resolve
  rw [hcstr, cstr_of_not_mem hnul]
  simp only [hne, hhead, hsplit, walk_append, walk_singleton, List.append_eq_nil_iff, false_and,
    if_false]
  rfl

/-- A path with slashes at its end names what it names without them, if that is a directory. -/
theorem resolve_append_slashes {fs : FileSystem} {path slashes : Str} (hne : path ≠ [])
    (hnul : nul ∉ path) (hslashes : ∀ c ∈ slashes, c = '/') {loc : Location} :
    fs.resolve (path ++ slashes) = some loc ↔
      fs.resolve path = some loc ∧ (slashes ≠ [] → fs.node loc = some .directory) := by
  induction slashes using List.reverseRecOn with
  | nil => simp
  | append_singleton slashes c ih =>
    have ih := ih fun d hd => hslashes d (by simp [hd])
    obtain rfl : c = '/' := hslashes c (by simp)
    have hnul' : nul ∉ path ++ slashes := fun hmem => by
      rcases List.mem_append.mp hmem with hmem | hmem
      · exact hnul hmem
      · exact absurd (hslashes nul (List.mem_append_left _ hmem)) (by decide)
    rw [← List.append_assoc, resolve_append_slash (by simp [hne]) hnul', Option.bind_eq_some_iff]
    constructor
    · rintro ⟨loc', hloc', hif⟩
      obtain ⟨hdir, heq⟩ := Option.ite_none_right_eq_some.mp hif
      obtain rfl := Option.some.inj heq
      exact ⟨(ih.mp hloc').1, fun _ => hdir⟩
    · rintro ⟨hloc, hdir⟩
      have hdir := hdir (by simp)
      exact ⟨loc, ih.mpr ⟨hloc, fun _ => hdir⟩, if_pos hdir⟩

/-- Slashes at the end of a path say that it names a directory. -/
theorem resolve_trimSlashes_iff {fs : FileSystem} {path : Str} (hnul : nul ∉ path)
    {loc : Location} :
    fs.resolve path = some loc ↔ fs.resolve (trimSlashes path) = some loc ∧
      (trimSlashes path ≠ path → fs.node loc = some .directory) := by
  by_cases htrim : trimSlashes path = path
  · simp [htrim]
  · obtain ⟨slashes, heq, hslashes⟩ := exists_trimSlashes_append path
    have hne : trimSlashes path ≠ [] := by
      rintro hnil
      rcases trimSlashes_cases path with ⟨-, hsame⟩ | ⟨before, c, -, -, -, -, hbefore⟩
      · exact htrim hsame
      · rw [hnil] at hbefore
        simp at hbefore
    have hnul' : nul ∉ trimSlashes path := fun hmem => hnul (heq ▸ List.mem_append_left _ hmem)
    have hsome : slashes ≠ [] := by
      rintro rfl
      rw [List.append_nil] at heq
      exact htrim heq.symm
    have hiff := @resolve_append_slashes fs _ _ hne hnul' hslashes loc
    rw [← heq] at hiff
    rw [hiff]
    exact and_congr_right fun _ => ⟨fun h _ => h hsome, fun h _ => h htrim⟩

/-- What is written is read back exactly if the stream opens. -/
theorem readFile_writeFile_iff {fs : FileSystem} {path content : Str} :
    (fs.writeFile path content).readFile path = some content ↔ fs.Opens path := by
  rw [readFile_eq_some]
  cases hloc : fs.resolve path with
  | none => simp [Opens, lookup, writeFile, hloc]
  | some loc =>
    rw [writeFile_eq hloc, lookup_eq (resolve_set hloc _ _)]
    by_cases hdir : fs.node loc = some .directory
    · -- The stream does not open on a directory, which stays.
      simp [Opens, hloc, hdir, set_directory hdir]
    · simp [Opens, hloc, hdir, set_node_self (writable_of_resolve hloc hdir)]

/-- What is written at one path leaves the file at another one, if they name two locations. -/
theorem readFile_writeFile_of_ne {fs : FileSystem} {path path' content : Str}
    (h : fs.readFile path' = some content) (hne : fs.resolve path ≠ fs.resolve path') (body : Str) :
    (fs.writeFile path body).readFile path' = some content := by
  obtain ⟨loc', hloc', hnode⟩ := lookup_eq_some.mp (readFile_eq_some.mp h)
  unfold writeFile
  split
  · next loc hloc =>
    have hother : loc' ≠ loc := fun heq => hne (by rw [hloc, hloc', heq])
    refine readFile_eq_some.mpr ?_
    rw [lookup_eq (resolve_set hloc' _ _), set_node_of_ne hother]
    exact hnode
  · exact h

/-- The working directory stays when a file is written. -/
@[simp] theorem writeFile_cwd (fs : FileSystem) (path content : Str) :
    (fs.writeFile path content).cwd = fs.cwd := by
  unfold writeFile
  split <;> simp

/-- What is there stays there when something is set. -/
theorem pathExists_set {fs : FileSystem} {path : Str} (h : fs.pathExists path = true)
    (loc : Location) (n : Node) : (fs.set loc (some n)).pathExists path = true := by
  obtain ⟨m, hm⟩ := Option.isSome_iff_exists.mp h
  obtain ⟨loc', hloc', hnode⟩ := lookup_eq_some.mp hm
  rw [pathExists, lookup_eq (resolve_set hloc' _ _)]
  rcases set_node_cases fs loc (some n) loc' with hsame | ⟨-, hset⟩
  · rw [hsame, hnode]
    rfl
  · rw [hset]
    rfl

/-- It stays there when a file is written. -/
theorem pathExists_writeFile {fs : FileSystem} {path : Str} (h : fs.pathExists path = true)
    (path' content : Str) : (fs.writeFile path' content).pathExists path = true := by
  unfold writeFile
  split
  · exact pathExists_set h _ _
  · exact h

section

variable {P : FileSystem → Prop} (hset : ∀ fs loc n, P fs → P (fs.set loc n))

include hset

/-- What every change at one location keeps is kept when a file is written. -/
theorem writeFile_keeps {fs : FileSystem} (h : P fs) (path content : Str) :
    P (fs.writeFile path content) := by
  unfold writeFile
  split
  · exact hset _ _ _ h
  · exact h

/-- It is kept when a file is removed. -/
theorem removeFile_keeps {fs : FileSystem} (h : P fs) (path : Str) : P (fs.removeFile path).2 := by
  unfold removeFile
  split
  · split
    · exact hset _ _ _ h
    · exact h
  · exact h

/-- It is kept when a directory is made. -/
theorem createDirectory_keeps {fs fs' : FileSystem} (h : P fs) {path : Str}
    (hnew : fs.createDirectory path = some fs') : P fs' := by
  obtain ⟨loc, -, -, -, rfl⟩ := createDirectory_eq_some hnew
  exact hset _ _ _ h

end

end FileSystem

end CrazyCode.Posix
