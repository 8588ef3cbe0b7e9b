import CrazyCode.Api.Scan

/-!
# What the methods do to a store

A POST to a store is always answered with an id: it finds or makes the directory of its entity, and
writes the file unless a zero byte cuts the path off before it (`handlePost_store`). The file that a
GET, PUT or DELETE of a name in an entity works on is one of the entity's own (`Store.lookup_item`).
What is set in a store leaves a store if it fits there (`Store.set`).
-/

namespace CrazyCode.Api

open Text Decimal Posix Outcome Profile Server

/-- The ids that the index has for an entity. -/
def State.ids (st : State) (entity : Str) : List ℤ := (st.pathCounts entity).getD []

/-- What a POST takes for an entity: it has a byte and no slash, and is not `.` or `..`. -/
def EntityName (entity : Str) : Prop :=
  entity ≠ [] ∧ entity ≠ ['.'] ∧ entity ≠ ['.', '.'] ∧ '/' ∉ entity

/-- What a POST is for, when it is not for `.` or `..`. -/
theorem entityName_of_target {target entity : Str} (htarget : target = "/api/".toList ++ entity)
    (hdot : target ≠ "/api/.".toList ∧ target ≠ "/api/..".toList) (hne : entity ≠ [])
    (hslash : '/' ∉ entity) : EntityName entity := by
  subst htarget
  refine ⟨hne, ?_, ?_, hslash⟩
  · rintro rfl
    exact hdot.1 rfl
  · rintro rfl
    exact hdot.2 rfl

/-! ## Changes of a store -/

section Changes

variable {fs : FileSystem} {top : Location}

/-- A store stays one when what is set below its root fits there. -/
theorem Store.set (hstore : Store top fs) {loc : Location} {n : Option Node}
    (hfits : ∀ names n', loc = top ++ names → n = some n' → Fits names n') :
    Store top (fs.set loc n) where
  top_directory := FileSystem.set_directory hstore.top_directory
  fits names n' hne hn' := by
    rcases fs.set_node_cases loc n (top ++ names) with hnode | ⟨hloc, hnode⟩
    · exact hstore.fits names n' hne (hnode ▸ hn')
    · exact hfits names n' hloc.symm (hnode ▸ hn')

/-- The directory of an entity fits into a store. -/
theorem Store.set_entity (hstore : Store top fs) (entity : Str) :
    Store top (fs.set (top ++ [entity]) (some .directory)) := by
  refine hstore.set fun names n' hnames hn' => ?_
  obtain rfl := List.append_cancel_left hnames
  obtain rfl := Option.some.inj hn'
  exact .entity _

/-- A file of an entity with a positive id fits into a store. -/
theorem Store.set_item (hstore : Store top fs) (entity : Str) {id : ℤ} (hid : 1 ≤ id ∧ id ≤ intMax)
    (content : Str) : Store top (fs.set (top ++ [entity, decimal id]) (some (.file content))) := by
  refine hstore.set fun names n' hnames hn' => ?_
  obtain rfl := List.append_cancel_left hnames
  obtain rfl := Option.some.inj hn'
  exact .item entity hid content

/-- A store stays one when a file in it is overwritten. -/
theorem Store.overwrite (hstore : Store top fs) {loc : Location} {content : Str}
    (hfile : fs.node loc = some (.file content)) (body : Str) :
    Store top (fs.set loc (some (.file body))) := by
  refine hstore.set fun names n' hnames hn' => ?_
  obtain rfl := Option.some.inj hn'
  rw [hnames] at hfile
  have hne : names ≠ [] := by
    rintro rfl
    rw [List.append_nil, hstore.top_directory] at hfile
    cases hfile
  cases hstore.fits names _ hne hfile with
  | item entity hid _ => exact .item entity hid body

/-- A store stays one when something in it is removed. -/
theorem Store.remove (hstore : Store top fs) (loc : Location) : Store top (fs.set loc none) :=
  hstore.set fun _ _ _ h => by cases h

/-- The name of an entity that has a directory. -/
theorem plain_of_directory (entity : Str) (h : fs.node (top ++ [entity]) ≠ none) :
    PlainName entity :=
  fs.plain_name _ _ h

/-- The path of a file of an entity that has a directory. -/
theorem Store.resolve_item (hstore : Store top fs) {root : Str} (hnul : nul ∉ root)
    (hroot : fs.resolve root = some top) {entity : Str}
    (hdir : fs.node (top ++ [entity]) = some .directory) (id : ℤ) :
    fs.resolve (root ++ '/' :: (entity ++ '/' :: decimal id)) =
      some (top ++ [entity, decimal id]) := by
  have hplain := plain_of_directory entity (by rw [hdir]; simp)
  have hname := plainName_decimal id
  rw [FileSystem.resolve_grandchild hnul hroot hstore.top_directory hplain hname.2.2.2.1,
    if_pos hdir, cstr_of_not_mem hname.2.2.2.2, climb_plain hname, List.append_assoc,
    List.singleton_append]

/-- The directory of an entity is not a file. -/
theorem Store.entity_cases (hstore : Store top fs) (entity : Str) :
    fs.node (top ++ [entity]) = none ∨ fs.node (top ++ [entity]) = some .directory := by
  cases hnode : fs.node (top ++ [entity]) with
  | none => exact .inl rfl
  | some n =>
    cases hstore.fits [entity] n (by simp) hnode with
    | entity _ => exact .inr rfl

/-- A component without a slash or a zero byte does not lead from the root to a file. -/
theorem Store.climb_cases (hstore : Store top fs) {component : Str} (hslash : '/' ∉ component)
    (hnul : nul ∉ component) :
    fs.node (climb top component) = some .directory ∨
      fs.node (climb top component) = none ∧ PlainName component := by
  cases hnode : fs.node (climb top component) with
  | none =>
    refine .inr ⟨rfl, climb_of_none hslash hnul ?_ ?_ hnode⟩
    · rw [hstore.top_directory]
      simp
    · rw [fs.dropLast_of_directory hstore.top_directory]
      simp
  | some n =>
    rcases plain_of_climb hslash hnul with rfl | rfl | rfl | hplain
    -- The root itself, twice, its parent, and an entity.
    · exact .inl (hnode.symm.trans hstore.top_directory)
    · exact .inl (hnode.symm.trans hstore.top_directory)
    · exact .inl (hnode.symm.trans (fs.dropLast_of_directory hstore.top_directory))
    · rw [climb_plain hplain] at hnode
      rcases hstore.entity_cases component with h | h
      · rw [h] at hnode
        cases hnode
      · exact .inl (hnode.symm.trans h)

/-- A directory of an entity is there when it is set. -/
theorem set_entity_self (hstore : Store top fs) {entity : Str} (hentity : PlainName entity) :
    (fs.set (top ++ [entity]) (some .directory)).node (top ++ [entity]) = some .directory := by
  rcases hstore.entity_cases entity with hnone | hdir
  · exact FileSystem.set_node_self
      (FileSystem.writable_of_plain hentity hstore.top_directory (by rw [hnone]; simp))
  · exact FileSystem.set_directory hdir

/-- The files of entities are apart. -/
theorem item_inj {entity entity' : Str} {id id' : ℤ} :
    top ++ [entity', decimal id'] = top ++ [entity, decimal id] ↔ entity' = entity ∧ id' = id := by
  rw [List.append_cancel_left_eq]
  simp only [List.cons.injEq, and_true]
  exact and_congr_right fun _ => decimal_injective.eq_iff

/-- A file can be written in the directory of an entity. -/
theorem Store.writable_item (hstore : Store top fs) {entity : Str}
    (hdir : fs.node (top ++ [entity]) = some .directory) (id : ℤ) :
    fs.Writable (top ++ [entity, decimal id]) := by
  have hw : fs.Writable ((top ++ [entity]) ++ [decimal id]) := by
    refine FileSystem.writable_of_plain (plainName_decimal id) hdir fun hnode => ?_
    rw [List.append_assoc] at hnode
    obtain ⟨_, _, -, -, hfile⟩ := (hstore.fits [entity, decimal id] _ (by simp) hnode).exists_item
    cases hfile
  rwa [List.append_assoc] at hw

/-- A root in front of a path that leads to a file has no zero byte: it would hide the rest of the
path, and the root is no file. -/
theorem Store.nul_not_mem_root (hstore : Store top fs) {root path content : Str} {loc : Location}
    (hroot : fs.resolve root = some top) (hloc : fs.resolve (root ++ '/' :: path) = some loc)
    (hnode : fs.node loc = some (.file content)) : nul ∉ root := by
  intro hmem
  rw [FileSystem.resolve_append_of_mem hmem, hroot] at hloc
  rw [← Option.some.inj hloc, hstore.top_directory] at hnode
  cases hnode

/-- The name of an entity on a path to a file has no zero byte: it would hide the other component,
and what is left of the name does not lead to a file. -/
theorem Store.plainName_entity (hstore : Store top fs) {root entity name content : Str}
    {loc : Location} (hroot : fs.resolve root = some top) (hentity : EntityName entity)
    (hloc : fs.resolve (root ++ '/' :: (entity ++ '/' :: name)) = some loc)
    (hnode : fs.node loc = some (.file content)) : PlainName entity := by
  have hnul := hstore.nul_not_mem_root hroot hloc hnode
  refine ⟨hentity.1, hentity.2.1, hentity.2.2.1, hentity.2.2.2, fun hmem => ?_⟩
  have hpath : root ++ '/' :: (entity ++ '/' :: name) =
      (root ++ '/' :: entity) ++ '/' :: name := by simp
  rw [hpath, FileSystem.resolve_append_of_mem (by simp [hmem]),
    FileSystem.resolve_child hroot hstore.top_directory hentity.2.2.2, if_neg hnul] at hloc
  rcases hstore.climb_cases (not_mem_cstr hentity.2.2.2) (nul_not_mem_cstr entity) with
    hdir | ⟨hnone, -⟩
  · rw [← Option.some.inj hloc, hdir] at hnode
    cases hnode
  · rw [← Option.some.inj hloc, hnone] at hnode
    cases hnode

/-- The only files that a path of an entity and one more component names are those of the entity. -/
theorem Store.lookup_item (hstore : Store top fs) {root : Str} (hroot : fs.resolve root = some top)
    {entity name content : Str} (hentity : EntityName entity) (hslash : '/' ∉ name)
    (h : fs.lookup (root ++ '/' :: (entity ++ '/' :: name)) = some (.file content)) :
    PlainName entity ∧ ∃ id, (1 ≤ id ∧ id ≤ intMax) ∧ cstr name = decimal id ∧
      fs.resolve (root ++ '/' :: (entity ++ '/' :: name)) = some (top ++ [entity, decimal id]) ∧
      fs.node (top ++ [entity, decimal id]) = some (.file content) := by
  obtain ⟨loc, hloc, hnode⟩ := FileSystem.lookup_eq_some.mp h
  have hnul := hstore.nul_not_mem_root hroot hloc hnode
  have hplain := hstore.plainName_entity hroot hentity hloc hnode
  refine ⟨hplain, ?_⟩
  rw [FileSystem.resolve_grandchild hnul hroot hstore.top_directory hplain hslash] at hloc ⊢
  split at hloc
  · next hdir =>
    obtain rfl := Option.some.inj hloc
    rw [if_pos hdir]
    -- Only a plain name leads to a file: the others stay in the directory, or go back to the root.
    rcases plain_of_climb (not_mem_cstr hslash) (nul_not_mem_cstr name) with hc | hc | hc | hc
    · rw [hc] at hnode
      exact absurd (hdir.symm.trans hnode) (by simp)
    · rw [hc] at hnode
      exact absurd (hdir.symm.trans hnode) (by simp)
    · have hup : climb (top ++ [entity]) (cstr name) = top := by simp [climb, hc]
      rw [hup, hstore.top_directory] at hnode
      cases hnode
    · rw [climb_plain hc, List.append_assoc, List.singleton_append] at hnode ⊢
      obtain ⟨id, content, hid, hname, -⟩ := (hstore.fits [entity, cstr name] _ (by simp)
        hnode).exists_item
      rw [hname] at hnode ⊢
      exact ⟨id, hid, rfl, rfl, hnode⟩
  · cases hloc

end Changes

/-! ## A POST to a store -/

section Post

variable {root : Str} {top : Location} {st : State} {entity : Str}

/-- Where the directory of a POST is, or is to be made. -/
theorem post_location (hroot : st.fs.resolve root = some top) (hstore : Store top st.fs)
    (hentity : EntityName entity) :
    ∃ loc, st.fs.resolve (root ++ '/' :: entity) = some loc ∧
      (st.fs.node loc = some .directory ∨
        st.fs.node loc = none ∧ loc = top ++ [cstr entity] ∧ PlainName (cstr entity)) ∧
      (nul ∉ root → PlainName entity → loc = top ++ [entity]) := by
  have hresolve := FileSystem.resolve_child hroot hstore.top_directory hentity.2.2.2
  by_cases hnul : nul ∈ root
  · rw [if_pos hnul] at hresolve
    exact ⟨top, hresolve, .inl hstore.top_directory, fun h => absurd hnul h⟩
  · rw [if_neg hnul] at hresolve
    refine ⟨_, hresolve, ?_, fun _ hplain => ?_⟩
    · rcases hstore.climb_cases (not_mem_cstr hentity.2.2.2) (nul_not_mem_cstr entity) with
        hdir | ⟨hnone, hplain⟩
      · exact .inl hdir
      · exact .inr ⟨hnone, climb_plain hplain top, hplain⟩
    · rw [cstr_of_not_mem hplain.2.2.2.2, climb_plain hplain]

/-- A POST finds the directory of its entity, or makes it. -/
theorem post_directory {loc : Location} (hstore : Store top st.fs)
    (hresolve : st.fs.resolve (root ++ '/' :: entity) = some loc)
    (hloc : st.fs.node loc = some .directory ∨
      st.fs.node loc = none ∧ loc = top ++ [cstr entity] ∧ PlainName (cstr entity)) :
    (if st.fs.pathExists (root ++ '/' :: entity) then some st.fs
      else st.fs.createDirectory (root ++ '/' :: entity)) =
        some (st.fs.set loc (some .directory)) ∧
    (st.fs.set loc (some .directory)).node loc = some .directory := by
  rcases hloc with hdir | ⟨hnone, rfl, hplain⟩
  · have hsame : st.fs.set loc (some .directory) = st.fs :=
      FileSystem.set_of_not_writable fun hw => hw.2.2.1 hdir
    have hexists : st.fs.pathExists (root ++ '/' :: entity) = true := by
      rw [FileSystem.pathExists, FileSystem.lookup_eq_some.mpr ⟨loc, hresolve, hdir⟩]
      rfl
    rw [if_pos hexists, hsame]
    exact ⟨rfl, hdir⟩
  · have hw : st.fs.Writable (top ++ [cstr entity]) :=
      FileSystem.writable_of_plain hplain hstore.top_directory (by rw [hnone]; simp)
    have hexists : st.fs.pathExists (root ++ '/' :: entity) = false := by
      simp [FileSystem.pathExists, FileSystem.lookup, hresolve, hnone]
    have hcreate : st.fs.createDirectory (root ++ '/' :: entity) =
        some (st.fs.set (top ++ [cstr entity]) (some .directory)) := by
      simp [FileSystem.createDirectory, hresolve, hw, hnone]
    rw [hexists, hcreate]
    exact ⟨rfl, FileSystem.set_node_self hw⟩

/-- A POST to a store is always answered with an id. It makes the directory of its entity, if there
is none, and writes the file in it, if the path of the directory has no zero byte. -/
theorem handlePost_store (hroot : st.fs.resolve root = some top) (hstore : Store top st.fs)
    (hentity : EntityName entity) (body : Str) :
    ∃ loc, (st.fs.node loc = some .directory ∨ loc = top ++ [cstr entity]) ∧
      (nul ∉ root ++ '/' :: entity → loc = top ++ [entity]) ∧
      handlePost root st entity body =
        (created (root ++ '/' :: entity) (nextId (st.ids entity)),
          ⟨if nul ∈ root ++ '/' :: entity then st.fs.set loc (some .directory)
            else (st.fs.set loc (some .directory)).set
              (loc ++ [decimal (nextId (st.ids entity))]) (some (.file body)),
            Function.update st.pathCounts entity (some (takeId (st.ids entity)))⟩) := by
  obtain ⟨loc, hresolve, hloc, hplainLoc⟩ := post_location hroot hstore hentity
  obtain ⟨hdirectory, hdir⟩ := post_directory hstore hresolve hloc
  refine ⟨loc, hloc.imp_right fun h => h.2.1, fun hnul => ?_, ?_⟩
  · simp only [List.mem_append, List.mem_cons, not_or] at hnul
    exact hplainLoc hnul.1 ⟨hentity.1, hentity.2.1, hentity.2.2.1, hentity.2.2.2, hnul.2.2⟩
  · have hfile := FileSystem.resolve_child
      (FileSystem.resolve_set hresolve loc (some .directory)) hdir
      (plainName_decimal (nextId (st.ids entity))).2.2.2.1
    rw [handlePost_eq hdirectory]
    show (created _ (nextId (st.ids entity)), State.mk ((st.fs.set loc (some .directory)).writeFile
      (root ++ '/' :: entity ++ '/' :: decimal (nextId (st.ids entity))) body) _) = _
    split
    · -- The path is cut off behind the directory, on which a stream does not open.
      next hnul =>
      rw [if_pos hnul] at hfile
      rw [FileSystem.writeFile_directory hfile hdir]
      rfl
    · next hnul =>
      rw [if_neg hnul, cstr_of_not_mem (plainName_decimal _).2.2.2.2,
        climb_plain (plainName_decimal _)] at hfile
      rw [FileSystem.writeFile_eq hfile]
      rfl

/-- Only the file of the id that is picked can be new behind a POST. -/
theorem handlePost_node (hroot : st.fs.resolve root = some top) (hstore : Store top st.fs)
    (hentity : EntityName entity) (body : Str) {entity' : Str} {id : ℤ}
    (hnode : (handlePost root st entity body).2.fs.node (top ++ [entity', decimal id]) ≠ none) :
    st.fs.node (top ++ [entity', decimal id]) ≠ none ∨
      entity' = entity ∧ id = nextId (st.ids entity) := by
  obtain ⟨loc, hloc, hplain, hpost⟩ := handlePost_store hroot hstore hentity body
  -- The directory is no file.
  have hdirectory : (st.fs.set loc (some .directory)).node (top ++ [entity', decimal id]) ≠ none →
      st.fs.node (top ++ [entity', decimal id]) ≠ none := fun hnode => by
    rcases st.fs.set_node_cases loc (some .directory) (top ++ [entity', decimal id])
      with hsame | ⟨heq, -⟩
    · rwa [hsame] at hnode
    · rcases hloc with hdir | hloc
      · rw [heq, hdir]
        simp
      · rw [hloc] at heq
        exact absurd (List.append_cancel_left heq) (by simp)
  rw [hpost] at hnode
  dsimp only at hnode
  split at hnode
  · exact .inl (hdirectory hnode)
  · next hnul =>
    rw [hplain hnul, List.append_assoc] at hnode
    rcases FileSystem.set_node_cases _ (top ++ [entity, decimal (nextId (st.ids entity))])
      (some (.file body)) (top ++ [entity', decimal id]) with hsame | ⟨heq, -⟩
    · rw [List.singleton_append, hsame] at hnode
      exact .inl (hdirectory (by rwa [hplain hnul]))
    · exact .inr (item_inj.mp heq)

/-- A POST leaves a store. -/
theorem Store.handlePost (hstore : Store top st.fs) (hroot : st.fs.resolve root = some top)
    (hentity : EntityName entity) (hnext : HasNext (st.ids entity)) (body : Str) :
    Store top (handlePost root st entity body).2.fs := by
  obtain ⟨loc, hloc, hplain, hpost⟩ := handlePost_store hroot hstore hentity body
  have hdirectory : Store top (st.fs.set loc (some .directory)) := by
    rcases hloc with hdir | rfl
    · rw [FileSystem.set_of_not_writable fun hw => hw.2.2.1 hdir]
      exact hstore
    · exact hstore.set_entity _
  rw [hpost]
  show Store top (if _ then _ else _)
  split
  · exact hdirectory
  · next hnul =>
    rw [hplain hnul] at hdirectory ⊢
    rw [List.append_assoc]
    exact hdirectory.set_item entity ⟨one_le_nextId hnext, nextId_le hnext⟩ body

end Post

end CrazyCode.Api
