import CrazyCode.Api.Overflow
import CrazyCode.Api.Stored
import CrazyCode.Library.Interleaving

/-!
# Two POSTs at once

All handlers share one index, and requests are handled on several threads, without a lock.
`getNextID` reads the list of an entity, and writes it back when it has put an id into it.
`PostStep` has the steps of a POST, and a POST that is left alone takes them to what `serve` answers
(`post_alone`).

Two POSTs to one entity that have both read the list before one of them writes it back (`Racing`)
pick one id, and write one file. As long as they do not, the second one reads a list in which the
first one has put its id, and picks another (`nextId_takeId_ne`). Then both files are there, and
both ids in the list, if the streams open and no sum overflows (`posts_kept`). The store is one to
which any requests have come, and nothing is asked of its files or its lists: what carries the
invariant is that behind a scan the list has every id that a scan can read (`PostKnows`). Two POSTs
that race lose one file (`not_posts_kept`).
-/

namespace CrazyCode.Api

open Text Decimal Posix Profile Server

/-! ## The steps of a POST -/

/-- How far a POST has got. -/
inductive PostPhase where
  | start
  /-- The constructor has scanned the files. -/
  | scanned
  /-- The directory of the entity is there, and `getNextID` has read the list. -/
  | read (idList : List ℤ)
  /-- `getNextID` has written the list back, and has returned an id. -/
  | counted (id : ℤ)
  /-- The file is written, and the answer is 201. -/
  | created (id : ℤ)
  /-- The directory cannot be made, and the answer is 400. -/
  | refused
deriving DecidableEq

/-- One step of a POST of `body` to an entity. -/
inductive PostStep (root : Str) (top : Location) (entity body : Str) :
    State → PostPhase → State → PostPhase → Prop
  | scan {st : State} {listing : List (List Str)} {pathCounts : PathCounts} :
      IsListing st.fs top listing → construct root listing st = .ok pathCounts →
      PostStep root top entity body st .start ⟨st.fs, pathCounts⟩ .scanned
  -- `operator[]`: an entity without a list gets an empty one.
  | read {st : State} {fs : FileSystem} :
      (if st.fs.pathExists (root ++ '/' :: entity) then some st.fs
        else st.fs.createDirectory (root ++ '/' :: entity)) = some fs →
      PostStep root top entity body st .scanned
        ⟨fs, Function.update st.pathCounts entity (some (st.ids entity))⟩ (.read (st.ids entity))
  | refuse {st : State} :
      (if st.fs.pathExists (root ++ '/' :: entity) then some st.fs
        else st.fs.createDirectory (root ++ '/' :: entity)) = none →
      PostStep root top entity body st .scanned st .refused
  | count (st : State) (idList : List ℤ) :
      PostStep root top entity body st (.read idList)
        ⟨st.fs, Function.update st.pathCounts entity (some (takeId idList))⟩
        (.counted (nextId idList))
  | write (st : State) (id : ℤ) :
      PostStep root top entity body st (.counted id)
        ⟨st.fs.writeFile (root ++ '/' :: entity ++ '/' :: decimal id) body, st.pathCounts⟩
        (.created id)

/-- What a POST is answered. -/
def PostPhase.answer (root entity : Str) : PostPhase → Option Response
  | .created id => some (Api.created (root ++ '/' :: entity) id)
  | .refused => some badRequest
  | _ => none

/-- Behind its scan, a POST that is left alone does what `handlePost` does. -/
theorem handlePost_alone (root : Str) (top : Location) (entity body : Str) (st : State) :
    ∃ tr phase, phase.answer root entity = some (handlePost root st entity body).1 ∧
      Run (Alone (PostStep root top entity body)) (st, .scanned) tr
        ((handlePost root st entity body).2, phase) := by
  cases hdirectory : (if st.fs.pathExists (root ++ '/' :: entity) then some st.fs
    else st.fs.createDirectory (root ++ '/' :: entity)) with
  | none =>
    have hrefuse : Alone (PostStep root top entity body) (st, .scanned) () () (st, .refused) :=
      .refuse hdirectory
    rw [handlePost_eq_bad hdirectory]
    exact ⟨_, .refused, rfl, Run.nil.snoc hrefuse⟩
  | some fs =>
    have hread : Alone (PostStep root top entity body) (st, .scanned) () ()
      (⟨fs, Function.update st.pathCounts entity (some (st.ids entity))⟩,
        .read (st.ids entity)) := .read hdirectory
    have hcount : Alone (PostStep root top entity body)
      (⟨fs, Function.update st.pathCounts entity (some (st.ids entity))⟩,
        .read (st.ids entity)) () ()
      (⟨fs, Function.update (Function.update st.pathCounts entity (some (st.ids entity))) entity
        (some (takeId (st.ids entity)))⟩, .counted (nextId (st.ids entity))) := .count _ _
    rw [Function.update_idem] at hcount
    have hwrite : Alone (PostStep root top entity body)
      (⟨fs, Function.update st.pathCounts entity (some (takeId (st.ids entity)))⟩,
        .counted (nextId (st.ids entity))) () ()
      (⟨fs.writeFile (root ++ '/' :: entity ++ '/' :: decimal (nextId (st.ids entity))) body,
        Function.update st.pathCounts entity (some (takeId (st.ids entity)))⟩,
        .created (nextId (st.ids entity))) := .write _ _
    rw [handlePost_eq hdirectory]
    exact ⟨_, .created _, rfl, ((Run.nil.snoc hread).snoc hcount).snoc hwrite⟩

/-- A POST of a client that has logged in, left alone, does what `serve` does. -/
theorem post_alone {root : Str} {top : Location} {entity body : Str} {listing : List (List Str)}
    {profile : UserProfile} {st st' : State} {res : Response}
    (hlisting : IsListing st.fs top listing)
    (hne : entity ≠ []) (hslash : '/' ∉ entity) (hlogin : profile.loginStatus = true)
    (hserve : serve root listing profile st ⟨.post, "/api/".toList ++ entity, body⟩ =
      .ok (res, st')) :
    ∃ tr phase, phase.answer root entity = some res ∧
      Run (Alone (PostStep root top entity body)) (st, .start) tr (st', phase) := by
  unfold serve at hserve
  cases hconstruct : construct root listing st with
  | error error => simp [hconstruct] at hserve
  | ok pathCounts =>
    -- The constructor leaves the files as they are.
    have hscan : Alone (PostStep root top entity body) (st, .start) () ()
      (⟨st.fs, pathCounts⟩, .scanned) := .scan hlisting hconstruct
    have hdispatch : dispatch root profile.loginStatus ⟨st.fs, pathCounts⟩ .post entity body =
        handlePost root ⟨st.fs, pathCounts⟩ entity body := by
      simp [dispatch, hslash, hlogin]
    simp only [hconstruct, handleRequest_eq root profile _ .post hne, hdispatch,
      Except.ok.injEq] at hserve
    obtain ⟨tr, phase, hanswer, hrun⟩ := handlePost_alone root top entity body ⟨st.fs, pathCounts⟩
    rw [hserve] at hanswer hrun
    exact ⟨_, phase, hanswer, (Run.nil.snoc hscan).append hrun⟩

/-- A POST has read the list, and has not written it back. -/
def PostPhase.Reading (phase : PostPhase) : Prop := ∃ idList, phase = .read idList

/-- Two POSTs have read the list. -/
def Racing (φ ψ : PostPhase) : Prop := φ.Reading ∧ ψ.Reading

/-- It is the same for the other POST. -/
theorem Racing.symm {φ ψ : PostPhase} (h : Racing φ ψ) : Racing ψ φ := ⟨h.2, h.1⟩

/-- The id that a POST has got. -/
def PostPhase.id? : PostPhase → Option ℤ
  | .counted id => some id
  | .created id => some id
  | _ => none

/-- A POST is through. -/
def PostPhase.Created (phase : PostPhase) : Prop := ∃ id, phase = .created id

/-! ## What two POSTs leave -/

section

variable (root : Str) (top : Location) (entity : Str) (bodies : Side → Str)

/-- Two POSTs that are answered 201 have different ids, and each has its file, with its own body,
and its id in the list. -/
def Kept (p : Pair State PostPhase) : Prop :=
  (∀ u v, p.phase .left = .created u → p.phase .right = .created v → u ≠ v) ∧
    ∀ i id, p.phase i = .created id →
      p.memory.fs.readFile (root ++ '/' :: (entity ++ '/' :: decimal id)) = some (bodies i) ∧
        id ∈ p.memory.ids entity

/-- Two POSTs get into each other's way: they have both read the list; or a zero byte in the path of
the entity hides their ids from the system, and both have written what is then one file, with two
bodies. -/
def Clashing (φ ψ : PostPhase) : Prop :=
  Racing φ ψ ∨ nul ∈ root ++ '/' :: entity ∧ bodies .left ≠ bodies .right ∧ φ.Created ∧ ψ.Created

/-- One step of one of the POSTs. The sum for the list that it has read does not overflow, and the
stream for its file opens. -/
structure PostsStep (i : Side) (st : State) (φ : PostPhase) (st' : State) (φ' : PostPhase) :
    Prop where
  step : PostStep root top entity (bodies i) st φ st' φ'
  next : ∀ idList, φ = .read idList → NoOverflow idList
  opens : ∀ id, φ = .counted id → CanWrite root st.fs entity id

/-- The constructor reads an id of the entity off a file. -/
def Scanned (fs : FileSystem) (id : ℤ) : Prop :=
  ∃ names, readId fs top names = some (.ok id) ∧ entityName fs root names = entity

/-- What a POST knows of the files and of the list: behind its scan the list has every id that a
scan reads, it is as it was read, and has the id that was put into it, whose file is there when it
is written. -/
structure PostKnows (i : Side) (st : State) (φ : PostPhase) : Prop where
  covered : φ ≠ .start → ∀ id, Scanned root top entity st.fs id → id ∈ st.ids entity
  present : φ.Reading ∨ φ.id? ≠ none → st.fs.pathExists (root ++ '/' :: entity) = true
  list : ∀ idList, φ = .read idList → st.ids entity = idList
  listed : ∀ id, φ.id? = some id → id ∈ st.ids entity ∧ intMin ≤ id ∧ id ≤ intMax
  file : ∀ id, φ = .created id →
    st.fs.readFile (root ++ '/' :: entity ++ '/' :: decimal id) = some (bodies i)

/-- The assertion about the files, the index and two POSTs. -/
structure PostAsserts (i : Side) (st : State) (φ ψ : PostPhase) : Prop where
  rooted : Rooted root top st
  ints : Ints (st.ids entity)
  knows : PostKnows root top entity bodies i st φ
  other : PostKnows root top entity bodies i.other st ψ
  differ : ∀ u v, φ.id? = some u → ψ.id? = some v → u ≠ v
  /-- A POST that has no id yet will not pick the one of the other, unless its sum overflows. -/
  fresh : ∀ u, φ.id? = some u → ψ.id? = none → NoOverflow (st.ids entity) →
    nextId (st.ids entity) ≠ u
  fresh_other : ∀ v, ψ.id? = some v → φ.id? = none → NoOverflow (st.ids entity) →
    nextId (st.ids entity) ≠ v

variable {root top entity bodies}

/-- It is the same for the other POST. -/
theorem Clashing.symm {φ ψ : PostPhase} (h : Clashing root entity bodies φ ψ) :
    Clashing root entity bodies ψ φ :=
  h.imp Racing.symm fun ⟨hnul, hne, hφ, hψ⟩ => ⟨hnul, hne, hψ, hφ⟩

/-- The assertion is the same for the other POST. -/
theorem PostAsserts.symm {i : Side} {st : State} {φ ψ : PostPhase}
    (h : PostAsserts root top entity bodies i st φ ψ) :
    PostAsserts root top entity bodies i.other st ψ φ where
  rooted := h.rooted
  ints := h.ints
  knows := h.other
  other := by
    rw [Side.other_other]
    exact h.knows
  differ u v hu hv := (h.differ v u hv hu).symm
  fresh := h.fresh_other
  fresh_other := h.fresh

/-- A POST that has not begun knows nothing. -/
theorem postKnows_start (i : Side) (st : State) : PostKnows root top entity bodies i st .start :=
  ⟨by simp, by simp [PostPhase.Reading, PostPhase.id?], by simp, by simp [PostPhase.id?], by simp⟩

/-- What a POST knows is still so when the list has grown, and it has not read it, and every id that
is read off a new file is in it. -/
theorem PostKnows.frame {i : Side} {st st' : State} {φ : PostPhase}
    (h : PostKnows root top entity bodies i st φ) (hsub : st.ids entity ⊆ st'.ids entity)
    (hread : φ.Reading → st'.ids entity = st.ids entity)
    (hpresent : st.fs.pathExists (root ++ '/' :: entity) = true →
      st'.fs.pathExists (root ++ '/' :: entity) = true)
    (hnew : ∀ id, Scanned root top entity st'.fs id →
      Scanned root top entity st.fs id ∨ id ∈ st'.ids entity)
    (hfile : ∀ id, φ = .created id →
      st.fs.readFile (root ++ '/' :: entity ++ '/' :: decimal id) = some (bodies i) →
      st'.fs.readFile (root ++ '/' :: entity ++ '/' :: decimal id) = some (bodies i)) :
    PostKnows root top entity bodies i st' φ where
  covered hφ id hscanned := by
    rcases hnew id hscanned with hold | hid
    · exact hsub (h.covered hφ id hold)
    · exact hid
  present hφ := hpresent (h.present hφ)
  list idList hφ := (hread ⟨idList, hφ⟩).trans (h.list idList hφ)
  listed id hid := ⟨hsub (h.listed id hid).1, (h.listed id hid).2⟩
  file id hφ := hfile id hφ (h.file id hφ)

/-! ## One step -/

/-- The scan puts every id that it reads into the list. Behind the scan of the other POST they are
there. -/
theorem PostAsserts.scan {i : Side} {st : State} {ψ : PostPhase}
    (h : PostAsserts root top entity bodies i st .start ψ) {listing : List (List Str)}
    (hlisting : IsListing st.fs top listing) :
    PostAsserts root top entity bodies i
      ⟨st.fs, filled (scannedIds st.fs root top listing) st.pathCounts⟩ .scanned ψ := by
  -- The listing has every file off which an id is read.
  have hmem : ∀ id, id ∈ scannedIds st.fs root top listing entity ↔
      Scanned root top entity st.fs id := fun id => by
    rw [mem_scannedIds]
    refine exists_congr fun names => and_iff_right_of_imp fun hread => ?_
    obtain ⟨parents, name, content, rfl, hnode, -⟩ := readId_eq_some.mp hread.1
    exact (hlisting.2 _).mpr ⟨by simp, by rw [hnode]; simp⟩
  have hids : State.ids ⟨st.fs, filled (scannedIds st.fs root top listing) st.pathCounts⟩ entity =
      (scannedIds st.fs root top listing entity).foldl insertId (st.ids entity) :=
    getD_filled _ _ _
  -- Once the other POST has scanned, nothing is put in.
  have hsame : ψ ≠ .start → State.ids
      ⟨st.fs, filled (scannedIds st.fs root top listing) st.pathCounts⟩ entity = st.ids entity :=
    fun hψ => by
      rw [hids]
      exact foldl_insertId_of_subset fun id hid => h.other.covered hψ id ((hmem id).mp hid)
  have hsub : st.ids entity ⊆ State.ids
      ⟨st.fs, filled (scannedIds st.fs root top listing) st.pathCounts⟩ entity := fun id hid => by
    rw [hids]
    exact mem_foldl_insertId.mpr (.inl hid)
  refine ⟨⟨h.rooted.resolve, h.rooted.directory⟩, ints_filled h.ints listing,
    ⟨fun _ id hid => ?_, ?_, ?_, ?_, ?_⟩, ?_, ?_, ?_, fun v hv _ hnext => ?_⟩
  · rw [hids]
    exact mem_foldl_insertId.mpr (.inr ((hmem id).mpr hid))
  · simp [PostPhase.Reading, PostPhase.id?]
  · simp
  · simp [PostPhase.id?]
  · simp
  · by_cases hψ : ψ = .start
    · rw [hψ]
      exact postKnows_start _ _
    · exact h.other.frame hsub (fun _ => hsame hψ) id (fun _ hid => .inl hid) fun _ _ hfile => hfile
  · simp [PostPhase.id?]
  · simp [PostPhase.id?]
  · have hψ : ψ ≠ .start := by
      rintro rfl
      simp [PostPhase.id?] at hv
    rw [hsame hψ] at hnext ⊢
    exact h.fresh_other v hv rfl hnext

/-- A POST finds the directory of its entity, or makes it, and reads the list. -/
theorem PostAsserts.read {i : Side} {st : State} {ψ : PostPhase} {fs : FileSystem}
    (h : PostAsserts root top entity bodies i st .scanned ψ)
    (hfs : (if st.fs.pathExists (root ++ '/' :: entity) then some st.fs
      else st.fs.createDirectory (root ++ '/' :: entity)) = some fs) :
    PostAsserts root top entity bodies i
      ⟨fs, Function.update st.pathCounts entity (some (st.ids entity))⟩
      (.read (st.ids entity)) ψ := by
  have hids : State.ids ⟨fs, Function.update st.pathCounts entity (some (st.ids entity))⟩ entity =
      st.ids entity := ids_update_self _ _ _ _
  -- When the other POST has its directory, nothing is made.
  have hsame : st.fs.pathExists (root ++ '/' :: entity) = true → fs = st.fs := fun hexists => by
    rw [if_pos hexists] at hfs
    exact (Option.some.inj hfs).symm
  have hscanned : ∀ id, Scanned root top entity fs id → Scanned root top entity st.fs id := by
    rintro id ⟨names, hread, hentity⟩
    rw [entityName_of_cwd (post_cwd hfs)] at hentity
    exact ⟨names, readId_directory hfs hread, hentity⟩
  refine ⟨h.rooted.check hfs _, ?_,
    ⟨fun _ id hid => ?_, fun _ => post_exists hfs, fun idList hread => ?_, ?_, ?_⟩, ?_, ?_, ?_,
    fun v hv _ hnext => ?_⟩
  · rw [hids]
    exact h.ints
  · rw [hids]
    exact h.knows.covered (by simp) id (hscanned id hid)
  · rw [hids]
    exact PostPhase.read.inj hread
  · simp [PostPhase.id?]
  · simp
  · refine h.other.frame (by rw [hids]; exact List.Subset.refl _) (fun _ => hids)
      (fun _ => post_exists hfs) (fun id hid => .inl (hscanned id hid)) fun id hψ hfile => ?_
    rw [hsame (h.other.present (.inr (by rw [hψ]; simp [PostPhase.id?])))]
    exact hfile
  · simp [PostPhase.id?]
  · simp [PostPhase.id?]
  · rw [hids] at hnext ⊢
    exact h.fresh_other v hv rfl hnext

/-- A POST whose directory cannot be made knows what it knew. -/
theorem PostAsserts.refuse {i : Side} {st : State} {ψ : PostPhase}
    (h : PostAsserts root top entity bodies i st .scanned ψ) :
    PostAsserts root top entity bodies i st .refused ψ where
  rooted := h.rooted
  ints := h.ints
  knows := ⟨fun _ => h.knows.covered (by simp), by simp [PostPhase.Reading, PostPhase.id?], by simp,
    by simp [PostPhase.id?], by simp⟩
  other := h.other
  differ := by simp [PostPhase.id?]
  fresh := by simp [PostPhase.id?]
  fresh_other v hv _ := h.fresh_other v hv rfl

/-- A POST writes the list back with a new id, if the other one does not stand between reading it
and writing it back. -/
theorem PostAsserts.count {i : Side} {st : State} {ψ : PostPhase} {idList : List ℤ}
    (h : PostAsserts root top entity bodies i st (.read idList) ψ) (hnext : NoOverflow idList)
    (hψ : ¬ ψ.Reading) :
    PostAsserts root top entity bodies i
      ⟨st.fs, Function.update st.pathCounts entity (some (takeId idList))⟩
      (.counted (nextId idList)) ψ := by
  -- The list is still as it was read.
  have hlist : st.ids entity = idList := h.knows.list idList rfl
  have hints : Ints idList := hlist ▸ h.ints
  have hids : State.ids
      ⟨st.fs, Function.update st.pathCounts entity (some (takeId idList))⟩ entity =
      takeId idList := ids_update_self _ _ _ _
  have hsub : st.ids entity ⊆
      State.ids ⟨st.fs, Function.update st.pathCounts entity (some (takeId idList))⟩ entity := by
    rw [hids, hlist]
    exact fun id hid => (perm_takeId _).mem_iff.mpr (List.mem_cons_of_mem _ hid)
  refine ⟨⟨h.rooted.resolve, h.rooted.directory⟩, ?_,
    ⟨fun _ id hid => ?_, fun _ => ?_, ?_, fun id hid => ?_, ?_⟩, ?_, fun u v hu hv => ?_,
    fun u hu _ hnext' => ?_, ?_⟩
  · rw [hids]
    exact hints.takeId
  · exact hsub (h.knows.covered (by simp) id hid)
  · exact h.knows.present (.inl ⟨idList, rfl⟩)
  · simp
  · obtain rfl := Option.some.inj hid
    rw [hids]
    exact ⟨nextId_mem_takeId _, nextId_mem_int _⟩
  · simp
  · exact h.other.frame hsub (fun hread => absurd hread hψ) id (fun _ hid => .inl hid)
      fun _ _ hfile => hfile
  · obtain rfl := Option.some.inj hu
    rw [← hlist] at hnext ⊢
    exact h.fresh_other v hv rfl hnext
  · obtain rfl := Option.some.inj hu
    rw [hids] at hnext' ⊢
    exact nextId_takeId_ne hints hnext hnext'
  · simp [PostPhase.id?]

/-- A POST whose stream opens writes its file, and none that the other one has written. -/
theorem PostAsserts.write {i : Side} {st : State} {ψ : PostPhase} {id : ℤ}
    (h : PostAsserts root top entity bodies i st (.counted id) ψ) (hslash : '/' ∉ entity)
    (hopens : CanWrite root st.fs entity id)
    (hapart : ¬ Clashing root entity bodies (.created id) ψ) :
    PostAsserts root top entity bodies i
      ⟨st.fs.writeFile (root ++ '/' :: entity ++ '/' :: decimal id) (bodies i), st.pathCounts⟩
      (.created id) ψ := by
  obtain ⟨hid, hrange⟩ := h.knows.listed id rfl
  have hpresent : st.fs.pathExists (root ++ '/' :: entity) = true :=
    h.knows.present (.inr (by simp [PostPhase.id?]))
  have hchecked : (if st.fs.pathExists (root ++ '/' :: entity) then some st.fs
      else st.fs.createDirectory (root ++ '/' :: entity)) = some st.fs := if_pos hpresent
  have hself : (st.fs.writeFile (root ++ '/' :: entity ++ '/' :: decimal id) (bodies i)).readFile
      (root ++ '/' :: entity ++ '/' :: decimal id) = some (bodies i) :=
    FileSystem.readFile_writeFile_iff.mpr
      ((opens_iff h.rooted.resolve h.rooted.directory hslash hchecked id).mpr hopens)
  -- A scan finds the new file, under the id that the list has by now, and nothing else new.
  have hnew : ∀ id', Scanned root top entity
      (st.fs.writeFile (root ++ '/' :: entity ++ '/' :: decimal id) (bodies i)) id' →
      Scanned root top entity st.fs id' ∨ id' ∈ st.ids entity := by
    rintro id' ⟨names, hread, hentity⟩
    rw [entityName_of_cwd (FileSystem.writeFile_cwd _ _ _)] at hentity
    rcases readId_writeFile hpresent hrange hread with hold | heq
    · exact .inl ⟨names, hold, hentity⟩
    · obtain rfl := Except.ok.inj heq
      exact .inr hid
  refine ⟨⟨FileSystem.writeFile_keeps (P := fun fs => fs.resolve root = some top)
        (fun _ _ _ hloc => FileSystem.resolve_set hloc _ _) h.rooted.resolve _ _,
      FileSystem.writeFile_keeps (P := fun fs => fs.node top = some .directory)
        (fun _ _ _ hdir => FileSystem.set_directory hdir) h.rooted.directory _ _⟩, h.ints,
    ⟨fun _ id' hscanned => ?_, fun _ => FileSystem.pathExists_writeFile hpresent _ _, ?_,
      h.knows.listed, fun id' hφ => ?_⟩, ?_, h.differ, h.fresh, ?_⟩
  · rcases hnew id' hscanned with hold | hid'
    · exact h.knows.covered (by simp) id' hold
    · exact hid'
  · simp
  · obtain rfl := PostPhase.created.inj hφ
    exact hself
  · -- The other POST keeps its file, which has another path, unless a zero byte hides the ids.
    refine h.other.frame (List.Subset.refl _) (fun _ => rfl)
      (fun hexists => FileSystem.pathExists_writeFile hexists _ _) hnew fun v hψ hfile => ?_
    by_cases hnul : nul ∈ root ++ '/' :: entity
    · -- The two files are one, and so the two bodies are.
      have hbody : bodies i = bodies i.other := by
        by_contra hne
        refine hapart (.inr ⟨hnul, fun heq => hne ?_, ⟨id, rfl⟩, ⟨v, hψ⟩⟩)
        cases i with
        | left => exact heq
        | right => exact heq.symm
      rw [FileSystem.readFile_eq_some, FileSystem.lookup,
        FileSystem.resolve_append_of_mem hnul] at hself ⊢
      rw [← hbody]
      exact hself
    · exact FileSystem.readFile_writeFile_of_ne hfile
        (resolve_item_ne hnul hpresent (h.differ id v rfl (by rw [hψ]; rfl)) hfile) _
  · simp [PostPhase.id?]

/-- A step of a POST keeps the assertion, unless the two get into each other's way. -/
theorem PostAsserts.step {i : Side} {st st' : State} {φ φ' ψ : PostPhase} (hslash : '/' ∉ entity)
    (h : PostAsserts root top entity bodies i st φ ψ) (hapart : ¬ Clashing root entity bodies φ ψ)
    (hstep : PostsStep root top entity bodies i st φ st' φ')
    (hapart' : ¬ Clashing root entity bodies φ' ψ) :
    PostAsserts root top entity bodies i st' φ' ψ := by
  obtain ⟨hstep, hnext, hopens⟩ := hstep
  cases hstep with
  | scan hlisting hconstruct =>
    obtain ⟨-, rfl⟩ :=
      (construct_eq_ok_iff h.rooted.resolve h.rooted.directory).mp hconstruct
    exact h.scan hlisting
  | read hfs => exact h.read hfs
  | refuse => exact h.refuse
  | count idList =>
    exact h.count (hnext idList rfl) fun hread => hapart (.inl ⟨⟨idList, rfl⟩, hread⟩)
  | write id => exact h.write hslash (hopens id rfl) hapart'

/-! ## Runs of two POSTs -/

/-- Behind any run of requests, as long as two POSTs to an entity do not get into each other's way,
they keep their files and their ids. -/
theorem posts_kept {root : Str} {top : Location} {entity : Str} {bodies : Side → Str}
    {st₀ st : State} (hroot : st₀.fs.resolve root = some top)
    (hdir : st₀.fs.node top = some .directory) (hempty : ∀ entity, st₀.pathCounts entity = none)
    {reqs : List (Input × Response)} (hreqs : Run (Served root top) st₀ reqs st)
    (hslash : '/' ∉ entity) {tr : List (Side × Unit)} {p : Pair State PostPhase}
    (hrun : Run (Exclusive (Clashing root entity bodies) (PostsStep root top entity bodies))
      ⟨st, fun _ => .start⟩ tr p) : Kept root entity bodies p := by
  have hinit : PostAsserts root top entity bodies .left st .start .start :=
    ⟨rooted_of_run ⟨hroot, hdir⟩ hreqs, ints_of_run ⟨hroot, hdir⟩ hempty hreqs entity,
      postKnows_start _ _, postKnows_start _ _, by simp [PostPhase.id?], by simp [PostPhase.id?],
      by simp [PostPhase.id?]⟩
  have hstart : ¬ Clashing root entity bodies .start .start := by
    simp [Clashing, Racing, PostPhase.Reading, PostPhase.Created]
  have hassert : ∀ i, PostAsserts root top entity bodies i p.memory (p.phase i)
      (p.phase i.other) := by
    refine hrun.exclusive (PostAsserts root top entity bodies) (fun _ _ => Clashing.symm)
      (fun _ _ _ _ => PostAsserts.symm) hstart hinit ?_
    intro i st φ ψ st' φ' hapart h hstep hapart'
    exact h.step hslash hapart hstep hapart'
  refine ⟨fun u v hu hv => (hassert .left).differ u v (by rw [hu]; rfl) ?_, fun i id hid => ?_⟩
  · show (p.phase .right).id? = some v
    rw [hv]
    rfl
  · have hi := hassert i
    have hpicked : (p.phase i).id? = some id := by rw [hid]; rfl
    have hfile := hi.knows.file id hid
    rw [List.append_assoc, List.cons_append] at hfile
    exact ⟨hfile, (hi.knows.listed id hpicked).1⟩

end

/-! Two POSTs to an entity of an empty root. -/

/-- Their bodies. -/
def twoBodies : Side → Str
  | .left => "x".toList
  | .right => "y".toList

/-- Neither has begun. -/
def noPosts : Pair State PostPhase := ⟨emptyRoot, fun _ => .start⟩

/-- The entity has a list. -/
def posted (fs : FileSystem) (ids : List ℤ) : State :=
  ⟨fs, Function.update emptyRoot.pathCounts ['E'] (some ids)⟩

/-- The entity has its directory, and no file. -/
def madeRoot : FileSystem := emptyRoot.fs.set [['r'], ['E']] (some .directory)

/-- A file of the entity is written. -/
def filed (fs : FileSystem) (i : Side) (id : ℤ) : FileSystem :=
  fs.writeFile ("/r".toList ++ '/' :: ['E'] ++ '/' :: decimal id) (twoBodies i)

section

variable (i : Side)

/-- One of the two scans the empty root. -/
theorem postsStep_scan :
    PostsStep "/r".toList [['r']] ['E'] twoBodies i emptyRoot .start emptyRoot .scanned := by
  refine ⟨.scan isListing_emptyRoot ?_, by simp, by simp⟩
  rw [construct_eq fresh_emptyRoot.resolve fresh_emptyRoot.refines.index.store isListing_emptyRoot]
  exact congrArg Except.ok (funext fun entity => by simp [indexed, listedIds, emptyRoot])

/-- The first one makes the directory. -/
theorem postsStep_make : PostsStep "/r".toList [['r']] ['E'] twoBodies i emptyRoot .scanned
    (posted madeRoot []) (.read []) := by
  have hmake : (if emptyRoot.fs.pathExists "/r/E".toList then some emptyRoot.fs
      else emptyRoot.fs.createDirectory "/r/E".toList) = some madeRoot := by rfl
  exact ⟨.read hmake, by simp, by simp⟩

/-- The other one finds it. -/
theorem postsStep_find {fs : FileSystem} (hexists : fs.pathExists "/r/E".toList = true)
    (ids : List ℤ) : PostsStep "/r".toList [['r']] ['E'] twoBodies i (posted fs ids) .scanned
      (posted fs ids) (.read ids) := by
  have hfind : (if (posted fs ids).fs.pathExists "/r/E".toList then some (posted fs ids).fs
      else (posted fs ids).fs.createDirectory "/r/E".toList) = some fs := if_pos hexists
  have hids : (posted fs ids).ids ['E'] = ids := ids_update_self _ _ _ _
  have hsame : State.mk fs (Function.update (posted fs ids).pathCounts ['E'] (some ids)) =
      posted fs ids := by
    simp [posted]
  have hread : PostStep "/r".toList [['r']] ['E'] (twoBodies i) (posted fs ids) .scanned
      ⟨fs, Function.update (posted fs ids).pathCounts ['E'] (some ((posted fs ids).ids ['E']))⟩
      (.read ((posted fs ids).ids ['E'])) := .read hfind
  rw [hids, hsame] at hread
  exact ⟨hread, by simp, by simp⟩

/-- A list of at most one id is written back with a new one. -/
theorem postsStep_count (fs : FileSystem) (ids idList : List ℤ)
    (hlen : idList.length < 2) : PostsStep "/r".toList [['r']] ['E'] twoBodies i (posted fs ids)
      (.read idList) (posted fs (takeId idList)) (.counted (nextId idList)) := by
  have hsame : State.mk fs (Function.update (posted fs ids).pathCounts ['E']
      (some (takeId idList))) = posted fs (takeId idList) := by
    simp [posted]
  have hcount : PostStep "/r".toList [['r']] ['E'] (twoBodies i) (posted fs ids) (.read idList)
      ⟨fs, Function.update (posted fs ids).pathCounts ['E'] (some (takeId idList))⟩
      (.counted (nextId idList)) := .count _ _
  refine ⟨hsame ▸ hcount, fun l hl hlen' => ?_, by simp⟩
  rw [← PostPhase.read.inj hl] at hlen'
  omega

/-- The file is written, if its stream opens. -/
theorem postsStep_write {fs : FileSystem} (ids : List ℤ) {id : ℤ}
    (hopens : CanWrite "/r".toList fs ['E'] id) :
    PostsStep "/r".toList [['r']] ['E'] twoBodies i (posted fs ids) (.counted id)
      (posted (filed fs i id) ids) (.created id) :=
  ⟨.write (posted fs ids) id, by simp, fun _ hid => PostPhase.counted.inj hid ▸ hopens⟩

end

/-- Both scan, and then one POST waits until the other one has written the list back. -/
theorem posts_kept_turns :
    Kept "/r".toList ['E'] twoBodies ((((((((noPosts.move .left emptyRoot .scanned).move .right
      emptyRoot .scanned).move .left (posted madeRoot []) (.read [])).move .left
        (posted madeRoot [1]) (.counted 1)).move .right
        (posted madeRoot [1]) (.read [1])).move .left
          (posted (filed madeRoot .left 1) [1]) (.created 1)).move .right
            (posted (filed madeRoot .left 1) [2, 1]) (.counted 2)).move .right
              (posted (filed (filed madeRoot .left 1) .right 2) [2, 1]) (.created 2)) := by
  have hapart : ∀ {φ ψ : PostPhase}, ¬ ψ.Reading →
      ¬ Clashing "/r".toList ['E'] twoBodies φ ψ := fun hψ h => by
    rcases h with h | ⟨hnul, -⟩
    · exact hψ h.2
    · exact absurd hnul (by decide)
  have hapart' : ∀ {φ ψ : PostPhase}, ¬ φ.Reading →
      ¬ Clashing "/r".toList ['E'] twoBodies φ ψ := fun hφ h => hapart hφ h.symm
  have hstart : ¬ PostPhase.start.Reading := by simp [PostPhase.Reading]
  have hscanned : ¬ PostPhase.scanned.Reading := by simp [PostPhase.Reading]
  have hcounted : ¬ (PostPhase.counted 1).Reading := by simp [PostPhase.Reading]
  have hcreated : ¬ (PostPhase.created 1).Reading := by simp [PostPhase.Reading]
  -- The last step comes first.
  obtain ⟨tr, hrun⟩ : ∃ tr, Run (Exclusive (Clashing "/r".toList ['E'] twoBodies)
      (PostsStep "/r".toList [['r']] ['E'] twoBodies))
      noPosts tr ((((((((noPosts.move .left emptyRoot .scanned).move .right
        emptyRoot .scanned).move .left (posted madeRoot []) (.read [])).move .left
          (posted madeRoot [1]) (.counted 1)).move .right
          (posted madeRoot [1]) (.read [1])).move .left
            (posted (filed madeRoot .left 1) [1]) (.created 1)).move .right
              (posted (filed madeRoot .left 1) [2, 1]) (.counted 2)).move .right
                (posted (filed (filed madeRoot .left 1) .right 2) [2, 1]) (.created 2)) := by
    refine Run.exists_snoc ?_
      (.move (postsStep_write _ _ (by decide +kernel)) (hapart hcreated))
    refine Run.exists_snoc ?_ (.move (postsStep_count _ _ [1] [1] (by decide)) (hapart hcreated))
    refine Run.exists_snoc ?_
      (.move (postsStep_write _ _ (by decide +kernel)) (hapart' hcreated))
    refine Run.exists_snoc ?_ (.move (postsStep_find _ (by decide) _) (hapart hcounted))
    refine Run.exists_snoc ?_ (.move (postsStep_count _ _ [] [] (by decide)) (hapart hscanned))
    refine Run.exists_snoc ?_ (.move (postsStep_make _) (hapart hscanned))
    refine Run.exists_snoc ?_ (.move (postsStep_scan _) (hapart hscanned))
    exact ⟨_, Run.nil.snoc (.move (postsStep_scan _) (hapart hstart))⟩
  exact posts_kept fresh_emptyRoot.resolve fresh_emptyRoot.directory fresh_emptyRoot.index .nil
    (by decide) hrun

/-- Both POSTs read the empty list, and both get the id 1. -/
theorem not_posts_kept : ¬ ∀ (root : Str) (top : Location) (entity : Str) (bodies : Side → Str)
    (st : State), Fresh root top st → nul ∉ root → PlainName entity →
    ∀ (tr : List (Side × Unit)) (p : Pair State PostPhase),
      Run (Interleaved (PostsStep root top entity bodies)) ⟨st, fun _ => .start⟩ tr p →
      Kept root entity bodies p := fun h => by
  obtain ⟨tr, hrun⟩ : ∃ tr,
      Run (Interleaved (PostsStep "/r".toList [['r']] ['E'] twoBodies)) noPosts
      tr ((((((((noPosts.move .left emptyRoot .scanned).move .right emptyRoot .scanned).move .left
        (posted madeRoot []) (.read [])).move .right (posted madeRoot []) (.read [])).move .left
          (posted madeRoot [1]) (.counted 1)).move .right (posted madeRoot [1]) (.counted 1)).move
            .left (posted (filed madeRoot .left 1) [1]) (.created 1)).move .right
              (posted (filed (filed madeRoot .left 1) .right 1) [1]) (.created 1)) := by
    refine Run.exists_snoc ?_ (.move (postsStep_write _ _ (by decide +kernel)))
    refine Run.exists_snoc ?_ (.move (postsStep_write _ _ (by decide +kernel)))
    refine Run.exists_snoc ?_ (.move (postsStep_count _ _ [1] [] (by decide)))
    refine Run.exists_snoc ?_ (.move (postsStep_count _ _ [] [] (by decide)))
    refine Run.exists_snoc ?_ (.move (postsStep_find _ (by decide) []))
    refine Run.exists_snoc ?_ (.move (postsStep_make _))
    refine Run.exists_snoc ?_ (.move (postsStep_scan _))
    exact ⟨_, Run.nil.snoc (.move (postsStep_scan _))⟩
  have hkept := h _ _ _ _ _ fresh_emptyRoot (by decide) (by decide) tr _ hrun
  exact hkept.1 1 1 rfl rfl rfl

end CrazyCode.Api
