import CrazyCode.Api.Served

/-!
# The page of an entity

A GET of an entity writes each id of its list with a comma behind it, and then goes back by one byte
to write the closing bracket (`idsPage`). If there is an id, that takes the place of the last comma:
between the brackets stand the numerals of the ids with single commas between them, off which `stoi`
reads the list back.

Without an id the last byte is the opening bracket, and the page is a closing one alone. The list of
an entity stays in the index behind the DELETE of its last file, so that such a page is answered
with 200 (`faithful_of_run_iff`).
-/

namespace CrazyCode.Api

open Text Decimal Posix Profile Server

/-- A page has the numerals of ids between brackets, with single commas between them, and what
stands between its commas is read as these ids. -/
def Faithful (page : Str) (ids : List ℤ) : Prop :=
  ∃ text, page = '[' :: (text ++ [']']) ∧ text = [','].intercalate (ids.map decimal) ∧
    (pieces ',' text).map stoi = ids.map Except.ok

/-- If there is an id, the closing bracket takes the place of the last comma. -/
theorem idsPage_of_ne_nil {ids : List ℤ} (h : ids ≠ []) :
    idsPage ids = '[' :: ([','].intercalate (ids.map decimal) ++ [']']) := by
  have hcommas : (ids.flatMap fun id => decimal id ++ [',']) =
      [','].intercalate (ids.map decimal) ++ [','] := by
    rw [← flatMap_concat (by simpa using h), List.flatMap_map]
  rw [idsPage, hcommas, ← List.cons_append, List.dropLast_concat, List.cons_append]

/-- What stands between the commas is read as the ids. -/
theorem stoi_pieces {ids : List ℤ} (h : Ints ids) :
    (pieces ',' ([','].intercalate (ids.map decimal))).map stoi = ids.map Except.ok := by
  have hcomma : ∀ p ∈ ids.map decimal, ',' ∉ p := by
    rw [List.forall_mem_map]
    exact fun id _ => not_mem_decimal (by decide) (by decide) id
  have hlast : ∀ p ∈ (ids.map decimal).getLast?, p ≠ [] := by
    intro p hp
    obtain ⟨id, -, rfl⟩ := List.mem_map.mp (List.mem_of_getLast? hp)
    exact decimal_ne_nil id
  rw [pieces_intercalate hcomma hlast, List.map_map]
  exact List.map_congr_left fun id hid => stoi_decimal (h id hid).1 (h id hid).2

/-- The page of a list of `int`s is faithful exactly if the list has an id. -/
theorem faithful_idsPage_iff {ids : List ℤ} (h : Ints ids) :
    Faithful (idsPage ids) ids ↔ ids ≠ [] := by
  constructor
  · rintro ⟨text, hpage, -⟩ rfl
    -- The page is one byte long.
    have hlength := congrArg List.length hpage
    simp [idsPage] at hlength
  · exact fun hne => ⟨_, idsPage_of_ne_nil hne, rfl, stoi_pieces h⟩

/-- A bad request is not answered 200. -/
theorem badRequest_status : badRequest.status ≠ 200 := by decide

/-- A listing is a bad request, or it is the page of the list of an entity. -/
theorem handleList_cases (root : Str) (st : State) {entity : Str} (hslash : '/' ∉ entity) :
    handleList root st entity = badRequest ∨
      handleList root st entity = html 200 (idsPage (st.ids entity)) := by
  unfold handleList State.ids
  rw [beforeSlash_of_not_mem hslash]
  by_cases hdir : st.fs.isDirectory (root ++ '/' :: entity) = true
  · cases st.pathCounts entity with
    | none => exact .inl (ite_self _)
    | some ids => exact .inr (if_neg (not_not.mpr hdir))
  · exact .inl (if_pos hdir)

/-- A GET of an entity that is answered 200 has the page of its list for a body. -/
theorem handleRequest_list {root : Str} {st : State} {profile : UserProfile} {req : Request}
    {entity : Str} (hslash : '/' ∉ entity) (hmethod : req.method = .get)
    (htarget : req.target = "/api/".toList ++ entity)
    (hstatus : (handleRequest root profile st req).1.status = 200) :
    (handleRequest root profile st req).1.body = idsPage (st.ids entity) := by
  have hdrop : req.target.drop 5 = entity := by
    rw [htarget]
    rfl
  rcases handleRequest_cases root profile st req with ⟨-, heq⟩ | ⟨-, -, heq⟩
  · rw [heq] at hstatus
    exact absurd hstatus badRequest_status
  · have hlist : (handleRequest root profile st req).1 = handleList root st entity := by
      rw [heq, hmethod, hdrop, dispatch, if_neg hslash]
    rw [hlist] at hstatus ⊢
    rcases handleList_cases root st hslash with hbad | hpage
    · rw [hbad] at hstatus
      exact absurd hstatus badRequest_status
    · rw [hpage]
      rfl

/-- Wherever a run of requests has come to, with an empty index at the start and any files, a GET of
an entity that is answered 200 has a faithful page of its list exactly if there is an id in it. -/
theorem faithful_of_run_iff {root : Str} {top : Location} {st s s' : State} {i : Input}
    {o : Response}
    (hroot : st.fs.resolve root = some top) (hdir : st.fs.node top = some .directory)
    (hempty : ∀ entity, st.pathCounts entity = none) {tr : List (Input × Response)}
    (hrun : Run (Served root top) st tr s) (hstep : Served root top s i o s') {entity : Str}
    (hslash : '/' ∉ entity) (hmethod : i.request.method = .get)
    (htarget : i.request.target = "/api/".toList ++ entity) (hstatus : o.status = 200)
    {pathCounts : PathCounts} (hscan : construct root i.listing s = .ok pathCounts) :
    Faithful o.body ((pathCounts entity).getD []) ↔ (pathCounts entity).getD [] ≠ [] := by
  have hints : Ints ((pathCounts entity).getD []) :=
    ints_scan (rooted_of_run ⟨hroot, hdir⟩ hrun) hscan
    (ints_of_run ⟨hroot, hdir⟩ hempty hrun entity)
  have hanswer : (handleRequest root i.profile ⟨s.fs, pathCounts⟩ i.request).1 = o :=
    congrArg Prod.fst (hstep.eq_handleRequest hscan)
  rw [← hanswer] at hstatus ⊢
  rw [handleRequest_list hslash hmethod htarget hstatus]
  exact faithful_idsPage_iff hints

/-- Files 1 and 3 are listed. -/
theorem faithful_of_run_two :
    Faithful (html 200 "[1,3]".toList).body
        ((indexed (listingOf [1, 3]) (fun _ => none) ['E']).getD []) ↔
      (indexed (listingOf [1, 3]) (fun _ => none) ['E']).getD [] ≠ [] := by
  have hrange : InRange [1, 3] := by decide
  have hlisting : IsListing (storedIds [1, 3]).fs [['r']] (listingOf [1, 3]) :=
    isListing_storedIds (by decide)
  have hanswer : (handleRequest "/r".toList loggedIn
      ⟨(storedIds [1, 3]).fs, indexed (listingOf [1, 3]) fun _ => none⟩
      ⟨.get, "/api/E".toList, []⟩).1 = html 200 "[1,3]".toList := by decide +kernel
  have hscan := construct_eq (resolve_storedIds [1, 3]) (store_storedIds hrange) hlisting
  exact faithful_of_run_iff (i := ⟨listingOf [1, 3], loggedIn, ⟨.get, "/api/E".toList, []⟩⟩)
    (resolve_storedIds _) (by decide +kernel) (fun _ => rfl) .nil
    (served_of_scan hlisting hscan hanswer) (by decide) rfl rfl rfl hscan

/-- What a DELETE of the only file of an entity leaves. -/
def emptied : State :=
  (handleRequest "/r".toList loggedIn ⟨(storedIds [1]).fs, indexed (listingOf [1]) fun _ => none⟩
    ⟨.delete, "/api/E/1".toList, []⟩).2

/-- The file is gone. -/
theorem emptied_fs : emptied.fs = (storedIds [1]).fs.set [['r'], ['E'], ['1']] none := rfl

/-- The directory of the entity is left. -/
theorem isListing_emptied : IsListing emptied.fs [['r']] [[['E']]] := by
  have hlisting : IsListing (storedIds [1]).fs [['r']] (listingOf [1]) :=
    isListing_storedIds (by decide)
  rw [emptied_fs]
  have hw : (storedIds [1]).fs.Writable ([['r']] ++ [['E'], ['1']]) := by decide +kernel
  exact hlisting.erase hw

/-- The list of an entity whose only file has been deleted is answered with a bracket alone. -/
theorem not_faithful : ¬ ∀ (root : Str) (top : Location) (st s s' : State)
    (tr : List (Input × Response)) (i : Input) (o : Response) (entity : Str)
    (pathCounts : PathCounts), st.fs.resolve root = some top → st.fs.node top = some .directory →
    (∀ entity, st.pathCounts entity = none) → Run (Served root top) st tr s →
    Served root top s i o s' → '/' ∉ entity → i.request.method = .get →
    i.request.target = "/api/".toList ++ entity → o.status = 200 →
    construct root i.listing s = .ok pathCounts →
    Faithful o.body ((pathCounts entity).getD []) := by
  intro h
  have hrange : InRange [1] := by decide
  have hlisting : IsListing (storedIds [1]).fs [['r']] (listingOf [1]) :=
    isListing_storedIds (by decide)
  have hdelete : Served "/r".toList [['r']] (storedIds [1])
      ⟨listingOf [1], loggedIn, ⟨.delete, "/api/E/1".toList, []⟩⟩ deleted emptied :=
    served_of_scan hlisting (construct_eq (resolve_storedIds _) (store_storedIds hrange) hlisting)
      (by decide +kernel)
  have hroot : emptied.fs.resolve "/r".toList = some [['r']] := by
    rw [emptied_fs]
    exact FileSystem.resolve_set (resolve_storedIds _) _ _
  have hstore : Store [['r']] emptied.fs := by
    rw [emptied_fs]
    exact (store_storedIds hrange).remove _
  have hscan := construct_eq hroot hstore isListing_emptied
  have hget : Served "/r".toList [['r']] emptied
      ⟨[[['E']]], loggedIn, ⟨.get, "/api/E".toList, []⟩⟩ (html 200 (idsPage [])) _ :=
    served_of_scan isListing_emptied hscan (by decide +kernel)
  have hids : (indexed [[['E']]] emptied.pathCounts ['E']).getD [] = [] := by decide +kernel
  have hlist := h "/r".toList [['r']] (storedIds [1]) emptied _ _ _ _ ['E'] _ (resolve_storedIds _)
    (by decide +kernel) (fun _ => rfl) (.snoc .nil hdelete) hget (by decide) rfl rfl rfl hscan
  rw [hids] at hlist
  exact (faithful_idsPage_iff (by decide)).mp hlist rfl

end CrazyCode.Api
