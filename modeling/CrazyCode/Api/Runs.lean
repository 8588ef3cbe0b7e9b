import CrazyCode.Api.Invariant
import CrazyCode.Library.Run

/-!
# Runs of the API

In a run each request is handled by a new handler, whose constructor scans the files first, in any
order in which the system may list them (`Step`). From a store that an earlier server left, and the
empty index of a server that starts, no POST of the run overwrites a file, if the ids of each entity
are in order when the first constructor puts them into its list as they are listed
(`posts_fresh`). They are not for the files 1, 3, 4 and 2, listed in this order
(`not_posts_fresh`).
-/

namespace CrazyCode.Api

open Text Decimal Posix Profile Server

/-! ## Runs of requests -/

/-- A request, the profile that its handler gets, and the order in which the system lists the
entries below the root to the handler's constructor. -/
structure Input where
  listing : List (List Str)
  profile : UserProfile
  request : Request

/-- One request is handled, by a new handler, before an id gets to `INT_MAX`. Its target is not
`/api/.` or `/api/..`, neither of which names an entity. -/
structure Step (root : Str) (top : Location) (st : State) (i : Input) (o : Response) (st' : State) :
    Prop where
  bounded : st.Bounded top
  not_dot : i.request.target ≠ "/api/.".toList
  not_dots : i.request.target ≠ "/api/..".toList
  listed : IsListing st.fs top i.listing
  served : serve root i.listing i.profile st i.request = .ok (o, st')

/-- The ids of each entity are in order when they are put into a list as they are listed. -/
def ListedInOrder (listing : List (List Str)) : Prop :=
  ∀ entity, InOrder ((listedIds listing entity).foldl insertId [])

section Runs

variable {root : Str} {top : Location} {s s' : State} {i : Input} {o : Response}

/-- A request behind a scan that made an index, or left it as it was. -/
theorem Step.keeps (hstep : Step root top s i o s') (hroot : s.fs.resolve root = some top)
    (h : Indexed top ⟨s.fs, indexed i.listing s.pathCounts⟩)
    (hbounded : State.Bounded top ⟨s.fs, indexed i.listing s.pathCounts⟩) :
    Indexed top s' ∧ PostSafe root s i.request o s' := by
  have hserved := hstep.served
  rw [serve_eq hroot h.store hstep.listed] at hserved
  have hreq := h.handleRequest hroot i.profile (fun entity _ _ _ => h.hasNext hbounded entity)
    fun _ => ⟨hstep.not_dot, hstep.not_dots⟩
  rwa [Except.ok.inj hserved] at hreq

/-- The root stays where it is. -/
theorem Step.resolve (hstep : Step root top s i o s') (hroot : s.fs.resolve root = some top) :
    s'.fs.resolve root = some top := by
  have hserved := hstep.served
  unfold serve at hserved
  split at hserved
  · next pathCounts _ =>
    have hreq := handleRequest_resolve root ⟨s.fs, pathCounts⟩ hroot i.profile i.request
    rwa [Except.ok.inj hserved] at hreq
  · cases hserved

/-- A request behind the first one. -/
theorem Step.of_indexed (hstep : Step root top s i o s') (hroot : s.fs.resolve root = some top)
    (h : Indexed top s) : Indexed top s' ∧ PostSafe root s i.request o s' := by
  have hsame := h.indexed_eq hstep.listed
  refine hstep.keeps hroot ?_ ?_ <;> rw [hsame]
  · exact h
  · exact hstep.bounded

/-- The first request. -/
theorem Step.of_store (hstep : Step root top s i o s') (hroot : s.fs.resolve root = some top)
    (hstore : Store top s.fs) (hempty : ∀ entity, s.pathCounts entity = none)
    (hord : ListedInOrder i.listing) : Indexed top s' ∧ PostSafe root s i.request o s' := by
  have hnone : s.pathCounts = fun _ => none := funext hempty
  have h := Indexed.of_scan hstore hstep.bounded.2 hstep.listed hord
  have hfiles := scan_files hstore hstep.bounded.2 hstep.listed
  rw [← hnone] at h hfiles
  exact hstep.keeps hroot h
    ⟨fun entity id hid => (((hfiles entity).2 id).mp hid).1.2, hstep.bounded.2⟩

/-- Behind the first request of a run, the store has an index, if the first listing is in order. -/
theorem indexed_of_run {st : State} {tr : List (Input × Response)}
    (hroot : st.fs.resolve root = some top) (hstore : Store top st.fs)
    (hempty : ∀ entity, st.pathCounts entity = none) (hrun : Run (Step root top) st tr s)
    (hfirst : ∀ e ∈ tr.head?, ListedInOrder e.1.listing) :
    s.fs.resolve root = some top ∧ (tr = [] ∧ s = st ∨ tr ≠ [] ∧ Indexed top s) := by
  revert hfirst
  refine hrun.invariant (fun tr s => (∀ e ∈ tr.head?, ListedInOrder e.1.listing) →
    s.fs.resolve root = some top ∧ (tr = [] ∧ s = st ∨ tr ≠ [] ∧ Indexed top s))
    (fun _ => ⟨hroot, .inl ⟨rfl, rfl⟩⟩) fun tr s i o s' _ ih hstep hfirst => ?_
  cases tr with
  | nil =>
    obtain ⟨-, ⟨-, rfl⟩ | ⟨hne, -⟩⟩ := ih (by simp)
    · exact ⟨hstep.resolve hroot, .inr ⟨by simp,
        (hstep.of_store hroot hstore hempty (hfirst (i, o) (by simp))).1⟩⟩
    · exact absurd rfl hne
  | cons e tr =>
    obtain ⟨hresolve, ⟨hnil, -⟩ | ⟨-, h⟩⟩ := ih (by simpa using hfirst)
    · cases hnil
    · exact ⟨hstep.resolve hresolve, .inr ⟨by simp, (hstep.of_indexed hresolve h).1⟩⟩

/-- No POST overwrites a file, in any run from a store and an empty index in which the first listing
is in order. -/
theorem posts_fresh {st : State} (hroot : st.fs.resolve root = some top)
    (hstore : Store top st.fs) (hempty : ∀ entity, st.pathCounts entity = none)
    {tr : List (Input × Response)} (hrun : Run (Step root top) st tr s)
    (hstep : Step root top s i o s')
    (hfirst : ∀ e ∈ (tr ++ [(i, o)]).head?, ListedInOrder e.1.listing) :
    PostSafe root s i.request o s' := by
  cases tr with
  | nil =>
    obtain ⟨-, ⟨-, rfl⟩ | ⟨hne, -⟩⟩ := indexed_of_run hroot hstore hempty hrun (by simp)
    · exact (hstep.of_store hroot hstore hempty (hfirst (i, o) (by simp))).2
    · exact absurd rfl hne
  | cons e tr =>
    obtain ⟨hresolve, ⟨hnil, -⟩ | ⟨-, h⟩⟩ :=
      indexed_of_run hroot hstore hempty hrun (by simpa using hfirst)
    · cases hnil
    · exact (hstep.of_indexed hresolve h).2

end Runs

/-! Files of one entity, as an earlier server leaves them, and an order in which they are listed. -/

/-- The directory of an entity `/r/E`. -/
def emptyEntity : FileSystem :=
  (FileSystem.empty.set [['r']] (some .directory)).set [['r'], ['E']]
    (some .directory)

/-- Files `/r/E/name` without a byte in them, and an empty index. -/
def storedNames (names : List Str) : State where
  fs := names.foldr (fun name fs => fs.set [['r'], ['E'], name] (some (.file []))) emptyEntity
  pathCounts _ := none

/-- The listing of these files, in the order of the names. -/
def listingOfNames (names : List Str) : List (List Str) :=
  [['E']] :: names.map fun name => [['E'], name]

/-- Files `/r/E/id` without a byte in them, and an empty index. -/
def storedIds (ids : List ℤ) : State where
  fs := ids.foldr (fun id fs => fs.set [['r'], ['E'], decimal id] (some (.file [])))
    emptyEntity
  pathCounts _ := none

/-- The listing of these files, in the order of the ids. -/
def listingOf (ids : List ℤ) : List (List Str) :=
  [['E']] :: ids.map fun id => [['E'], decimal id]

/-- What is in the directory of an entity and above. -/
theorem emptyEntity_node (loc : Location) :
    emptyEntity.node loc =
      if loc = [] ∨ loc = [['r']] ∨ loc = [['r'], ['E']] then some .directory
      else none := by
  unfold emptyEntity
  by_cases h₂ : loc = [['r'], ['E']]
  · rw [h₂, FileSystem.set_node_self (by decide)]
    rfl
  · rw [FileSystem.set_node_of_ne h₂]
    by_cases h₁ : loc = [['r']]
    · rw [h₁, FileSystem.set_node_self (by decide)]
      rfl
    · rw [FileSystem.set_node_of_ne h₁]
      simp [FileSystem.empty, h₁, h₂]

/-- What is in the store of these files. -/
theorem storedNames_node {names : List Str} (hplain : ∀ name ∈ names, PlainName name)
    (loc : Location) :
    (storedNames names).fs.node loc =
      if ∃ name ∈ names, loc = [['r'], ['E'], name] then some (.file [])
      else emptyEntity.node loc := by
  induction names generalizing loc with
  | nil => simp [storedNames]
  | cons name names ih =>
    have hcons : (storedNames (name :: names)).fs = (storedNames names).fs.set
      [['r'], ['E'], name] (some (.file [])) := rfl
    have hrest := ih fun name hname => hplain name (by simp [hname])
    have hdir : (storedNames names).fs.node [['r'], ['E']] = some .directory := by
      rw [hrest]
      simp [emptyEntity_node]
    rw [hcons]
    by_cases hloc : loc = [['r'], ['E'], name]
    · have hw : (storedNames names).fs.Writable ([['r'], ['E']] ++ [name]) := by
        refine FileSystem.writable_of_plain (hplain name (by simp)) hdir ?_
        rw [hrest]
        simp [emptyEntity_node]
      rw [hloc, if_pos ⟨name, by simp, rfl⟩]
      exact FileSystem.set_node_self hw
    · rw [FileSystem.set_node_of_ne hloc, hrest]
      simp [hloc]

/-- The root of the store of these files. -/
theorem resolve_storedNames (names : List Str) :
    (storedNames names).fs.resolve "/r".toList = some [['r']] := by
  have hwalk : (storedNames names).fs.resolve "/r".toList =
    (storedNames names).fs.walk [] [[], ['r']] := rfl
  rw [hwalk, FileSystem.walk_cons, if_pos (storedNames names).fs.root_directory,
    FileSystem.walk_cons]
  exact if_pos (storedNames names).fs.root_directory

/-- The listing of these files is one. -/
theorem isListing_storedNames {names : List Str} (hplain : ∀ name ∈ names, PlainName name)
    (h : names.Nodup) :
    IsListing (storedNames names).fs [['r']] (listingOfNames names) := by
  have hmap : (names.map fun name => [['E'], name]).Nodup :=
    List.Pairwise.map _ (fun name name' hne heq => hne (by simpa using heq)) h
  refine ⟨List.nodup_cons.mpr ⟨by simp, hmap⟩, fun loc => ?_⟩
  rw [storedNames_node hplain, emptyEntity_node, listingOfNames, List.mem_cons, List.mem_map]
  constructor
  · rintro (rfl | ⟨name, hname, rfl⟩)
    · simp
    · rw [if_pos ⟨name, hname, rfl⟩]
      simp
  · rintro ⟨hne, hnode⟩
    split_ifs at hnode with hfile hdir
    · obtain ⟨name, hname, heq⟩ := hfile
      exact .inr ⟨name, hname, (List.cons.inj heq).2.symm⟩
    · exact .inl (by simpa [hne] using hdir)
    · exact absurd rfl hnode

/-- The files with these ids have their numerals for names. -/
theorem storedIds_eq (ids : List ℤ) : storedIds ids = storedNames (ids.map decimal) := by
  simp [storedIds, storedNames, List.foldr_map]

/-- What is at the names below the root of the store of these files. -/
theorem storedIds_below (ids : List ℤ) (names : List Str) :
    (storedIds ids).fs.node ([['r']] ++ names) =
      if ∃ id ∈ ids, names = [['E'], decimal id] then some (.file [])
      else if names = [] ∨ names = [['E']] then some .directory else none := by
  have hplain : ∀ name ∈ ids.map decimal, PlainName name := by
    simp only [List.forall_mem_map]
    exact fun id _ => plainName_decimal id
  rw [storedIds_eq, storedNames_node hplain, emptyEntity_node]
  simp

/-- The root of the store of these files. -/
theorem resolve_storedIds (ids : List ℤ) :
    (storedIds ids).fs.resolve "/r".toList = some [['r']] := by
  rw [storedIds_eq]
  exact resolve_storedNames _

/-- These files are a store. -/
theorem store_storedIds {ids : List ℤ} (h : InRange ids) : Store [['r']] (storedIds ids).fs where
  top_directory := by simpa using storedIds_below ids []
  fits names n hne hn := by
    rw [storedIds_below] at hn
    split_ifs at hn with hfile hdir
    · obtain ⟨id, hid, rfl⟩ := hfile
      obtain rfl := Option.some.inj hn
      exact .item _ ⟨(h id hid).1, (h id hid).2.le⟩ []
    · obtain rfl := hdir.resolve_left hne
      obtain rfl := Option.some.inj hn
      exact .entity _

/-- No file of these is named `INT_MAX`. -/
theorem bounded_storedIds {ids : List ℤ} (h : InRange ids) : (storedIds ids).Bounded [['r']] := by
  refine ⟨by simp [State.ids, storedIds], fun entity => ?_⟩
  rw [storedIds_below, if_neg, if_neg (by simp)]
  rintro ⟨id, hid, heq⟩
  simp only [List.cons.injEq, and_true] at heq
  have := h id hid
  rw [decimal_injective heq.2] at this
  omega

/-- The listing of these files is one. -/
theorem isListing_storedIds {ids : List ℤ} (h : ids.Nodup) :
    IsListing (storedIds ids).fs [['r']] (listingOf ids) := by
  have hplain : ∀ name ∈ ids.map decimal, PlainName name := by
    simp only [List.forall_mem_map]
    exact fun id _ => plainName_decimal id
  have hlisting : listingOf ids = listingOfNames (ids.map decimal) := by
    simp [listingOf, listingOfNames]
  rw [storedIds_eq, hlisting]
  exact isListing_storedNames hplain
    (List.Pairwise.map _ (fun _ _ hne heq => hne (decimal_injective heq)) h)

/-- A client that has logged in. -/
def loggedIn : UserProfile := ⟨1, [], [], true⟩

/-- A POST to the entity, by a client that has logged in. -/
def postInput (ids : List ℤ) : Input :=
  ⟨listingOf ids, ⟨1, [], [], true⟩, ⟨.post, "/api/E".toList, "x".toList⟩⟩

/-- What the POST comes to. -/
def postResult (ids : List ℤ) : Response × State :=
  handleRequest "/r".toList (postInput ids).profile
    ⟨(storedIds ids).fs, indexed (listingOf ids) (storedIds ids).pathCounts⟩ (postInput ids).request

/-- The POST is a step, whatever the ids of the files. -/
theorem step_storedIds {ids : List ℤ} (hrange : InRange ids) (hnodup : ids.Nodup) :
    Step "/r".toList [['r']] (storedIds ids) (postInput ids) (postResult ids).1
      (postResult ids).2 where
  bounded := bounded_storedIds hrange
  not_dot := (by decide : "/api/E".toList ≠ "/api/.".toList)
  not_dots := (by decide : "/api/E".toList ≠ "/api/..".toList)
  listed := isListing_storedIds hnodup
  served :=
    serve_eq (resolve_storedIds ids) (store_storedIds hrange) (isListing_storedIds hnodup) _ _

/-- Two files are always in order: a POST makes another one. -/
theorem posts_fresh_two :
    PostSafe "/r".toList (storedIds [1, 3]) (postInput [1, 3]).request
      (created "/r/E".toList 2) (postResult [1, 3]).2 := by
  have hrange : InRange [1, 3] := by decide
  have hres : (postResult [1, 3]).1 = created "/r/E".toList 2 := by decide +kernel
  rw [← hres]
  refine posts_fresh (resolve_storedIds _) (store_storedIds hrange) (fun _ => rfl) .nil
    (step_storedIds hrange (by decide)) fun e he entity => ?_
  obtain rfl := Option.some.inj he
  by_cases hentity : ['E'] = entity
  · subst hentity
    have hids : (listedIds (listingOf [1, 3]) ['E']).foldl insertId [] = [1, 3] := by
      decide +kernel
    show InOrder ((listedIds (listingOf [1, 3]) ['E']).foldl insertId [])
    rw [hids]
    exact inOrder_of_length_lt (by decide)
  · refine inOrder_of_length_lt ?_
    simp [postInput, listingOf, listedIds, hentity]

/-- Files 1, 3, 4 and 2, listed in this order, are not: a POST overwrites file 3. -/
theorem not_posts_fresh : ¬ ∀ (root : Str) (top : Location) (st : State),
    st.fs.resolve root = some top → Store top st.fs → (∀ entity, st.pathCounts entity = none) →
    ∀ (tr : List (Input × Response)) (s : State) (i : Input) (o : Response) (s' : State),
      Run (Step root top) st tr s → Step root top s i o s' → PostSafe root s i.request o s' :=
  fun h => by
  have hrange : InRange [1, 3, 4, 2] := by decide
  have hres : (postResult [1, 3, 4, 2]).1 = created "/r/E".toList 3 := by decide +kernel
  have hsafe := h _ _ _ (resolve_storedIds _) (store_storedIds hrange) (fun _ => rfl) _ _ _ _ _ .nil
    (step_storedIds hrange (by decide)) "E".toList 3 rfl rfl hres
  exact absurd hsafe.1 (by decide)

end CrazyCode.Api
