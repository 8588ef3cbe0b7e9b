import CrazyCode.Api.Served

/-!
# The sums of the id arithmetic

The loop over a list of ids adds one to each id of the first run that has another id behind it,
until the run ends (`runSums`). The constructor goes through it for an id that is new in a list of
two or more, and `getNextID` for every such list, where it then adds one to the last id of the run.

A sum overflows only at `INT_MAX`. In the constructor that is when the first run goes up to it and
another id stands behind it (`RunsOver`), and in `getNextID` when the first run ends there. The id
that `getNextID` returns is positive if the first run does not end below zero
(`arithmetic_of_run_iff`). Without an overflow an id is not picked twice in a row
(`nextId_takeId_ne`).
-/

namespace CrazyCode.Api

open Text Decimal Posix Profile Server

/-! ## The sums -/

/-- The sums `ids[index - 1] + 1` that the loop over a list of ids computes, in order. -/
def runSums : List ℤ → List ℤ
  | a :: b :: ids => (a + 1) :: if b = wrap (a + 1) then runSums (b :: ids) else []
  | _ => []

/-- The sums that the constructor computes for an id that it reads off a file. -/
def insertSums (ids : List ℤ) (id : ℤ) : List ℤ :=
  if id ∈ ids then []
  else
    match ids with
    | [] => []
    | [_] => []
    | ids => runSums ids

/-- The sums that `getNextID` computes for a list of ids. -/
def nextSums : List ℤ → List ℤ
  | [] => []
  | [_] => []
  | ids => runSums ids ++ [ids.getD (runEnd ids - 1) 0 + 1]

/-- The sums that the constructor computes for the entries of a listing, one after the other. -/
def scanSums (fs : FileSystem) (root : Str) (top : Location) :
    List (List Str) → PathCounts → List ℤ
  | [], _ => []
  | names :: listing, pathCounts =>
    (match readId fs top names with
      | some (.ok id) => insertSums ((pathCounts (entityName fs root names)).getD []) id
      | _ => []) ++
      scanSums fs root top listing (filled (scannedIds fs root top [names]) pathCounts)

/-- A list begins with consecutive ids that go up to `INT_MAX`, and has another id behind that. -/
inductive RunsOver : List ℤ → Prop
  | here (b : ℤ) (ids : List ℤ) : RunsOver (intMax :: b :: ids)
  | next {a : ℤ} {ids : List ℤ} : RunsOver ((a + 1) :: ids) → RunsOver (a :: (a + 1) :: ids)

/-- The first sum of a loop that has a second id to look at. -/
theorem runSums_cons (a b : ℤ) (ids : List ℤ) :
    runSums (a :: b :: ids) = (a + 1) :: if b = wrap (a + 1) then runSums (b :: ids) else [] := rfl

/-- What stands behind the first id is a part of the list. -/
theorem Ints.tail {a : ℤ} {ids : List ℤ} (h : Ints (a :: ids)) : Ints ids := fun id hid =>
  h id (List.mem_cons_of_mem _ hid)

/-- The sums of the loop are in range exactly if the first run does not go up to `INT_MAX` with
another id behind it. -/
theorem ints_runSums_iff {ids : List ℤ} (h : Ints ids) : Ints (runSums ids) ↔ ¬ RunsOver ids := by
  match ids with
  | [] => exact iff_of_true (by simp [runSums, Ints]) nofun
  | [a] => exact iff_of_true (by simp [runSums, Ints]) nofun
  | a :: b :: ids =>
    have ha := h a (by simp)
    rw [runSums_cons]
    rcases ha.2.lt_or_eq with hlt | rfl
    · have hwrap := wrap_int_succ ⟨ha.1, hlt⟩
      have hsum : intMin ≤ a + 1 ∧ a + 1 ≤ intMax := by omega
      by_cases hb : b = a + 1
      · subst hb
        rw [if_pos hwrap.symm]
        have hcons : Ints ((a + 1) :: runSums ((a + 1) :: ids)) ↔ Ints (runSums ((a + 1) :: ids)) :=
          ⟨Ints.tail, fun hrest => List.forall_mem_cons.mpr ⟨hsum, hrest⟩⟩
        rw [hcons, ints_runSums_iff h.tail, not_iff_not]
        refine ⟨.next, fun hover => ?_⟩
        cases hover with
        | here => omega
        | next hover => exact hover
      · rw [hwrap, if_neg hb]
        refine iff_of_true (List.forall_mem_cons.mpr ⟨hsum, by simp⟩) fun hover => ?_
        cases hover with
        | here => omega
        | next => exact hb rfl
    · -- The first sum overflows.
      refine iff_of_false (fun hsums => ?_) fun hnot => hnot (.here b ids)
      have := (hsums (intMax + 1) (by simp)).2
      omega

/-- The loop stops behind the first id at the earliest. -/
theorem one_le_runEnd (ids : List ℤ) : 1 ≤ runEnd ids := by
  match ids with
  | [] => exact le_rfl
  | [a] => exact le_rfl
  | a :: b :: ids =>
    rw [runEnd]
    split <;> omega

/-- What `getNextID` adds one to behind an id that goes on to the next one. -/
theorem getD_runEnd_next {a : ℤ} (ha : intMin ≤ a ∧ a < intMax) (ids : List ℤ) :
    (a :: (a + 1) :: ids).getD (runEnd (a :: (a + 1) :: ids) - 1) 0 =
      ((a + 1) :: ids).getD (runEnd ((a + 1) :: ids) - 1) 0 := by
  have hend : runEnd (a :: (a + 1) :: ids) = runEnd ((a + 1) :: ids) + 1 := by
    rw [runEnd, if_pos (wrap_int_succ ha).symm]
  obtain ⟨k, hk⟩ : ∃ k, runEnd ((a + 1) :: ids) = k + 1 :=
    ⟨_, (Nat.sub_add_cancel (one_le_runEnd _)).symm⟩
  rw [hend, hk]
  rfl

/-- What `getNextID` adds one to is the last id of the first run, if that is below `INT_MAX`. -/
theorem FirstRun.getD_runEnd {ids : List ℤ} {e : ℤ} (h : FirstRun ids e) (hints : Ints ids)
    (hlt : e < intMax) : ids.getD (runEnd ids - 1) 0 = e := by
  induction h with
  | @stop a ids hstop =>
    cases ids with
    | nil => rfl
    | cons b ids =>
      have hb : b ≠ wrap (a + 1) := by
        rw [wrap_int_succ ⟨(hints a (by simp)).1, hlt⟩]
        exact hstop b (by simp)
      rw [runEnd, if_neg hb]
      rfl
  | @next a e ids _ ih =>
    have ha := (hints a (by simp)).1
    have hsucc := (hints (a + 1) (by simp)).2
    rw [getD_runEnd_next ⟨ha, by omega⟩, ih hints.tail hlt]

/-- Without an overflow, the id that `getNextID` picks for a list of two ids or more is the
successor of the last one of the first run. -/
theorem FirstRun.nextId_eq {ids : List ℤ} {e : ℤ} (h : FirstRun ids e) (hlen : 2 ≤ ids.length)
    (hints : Ints ids) (hlt : e < intMax) : Api.nextId ids = e + 1 := by
  match ids with
  | [] | [_] => simp at hlen
  | a :: b :: ids =>
    have hget : Api.nextId (a :: b :: ids) =
        wrap ((a :: b :: ids).getD (runEnd (a :: b :: ids) - 1) 0 + 1) := rfl
    rw [hget, h.getD_runEnd hints hlt, wrap_int_succ ⟨(hints e h.mem).1, hlt⟩]

/-- With that id behind it, the first run goes on. -/
theorem FirstRun.lt_of_insert {ids : List ℤ} {e e' : ℤ} (h : FirstRun ids e) (hints : Ints ids)
    (hlt : e < intMax) (h' : FirstRun (ids.insertIdx (runEnd ids) (e + 1)) e') : e < e' := by
  induction h with
  | @stop a ids hstop =>
    have hend : runEnd (a :: ids) = 1 := by
      cases ids with
      | nil => rfl
      | cons b ids =>
        rw [runEnd, if_neg]
        rw [wrap_int_succ ⟨(hints a (by simp)).1, hlt⟩]
        exact hstop b (by simp)
    rw [hend, List.insertIdx_succ_cons, List.insertIdx_zero] at h'
    cases h' with
    | stop hstop => exact absurd rfl (hstop _ rfl)
    | next h' => exact h'.le
  | @next a e ids h ih =>
    have hle := h.le
    have hend : runEnd (a :: (a + 1) :: ids) = runEnd ((a + 1) :: ids) + 1 := by
      rw [runEnd, if_pos (wrap_int_succ ⟨(hints a (by simp)).1, by omega⟩).symm]
    -- The list goes on with `a + 1`, as the one with the id behind its run does.
    obtain ⟨k, hk⟩ : ∃ k, runEnd ((a + 1) :: ids) = k + 1 :=
      ⟨_, (Nat.sub_add_cancel (one_le_runEnd _)).symm⟩
    rw [hend, List.insertIdx_succ_cons] at h'
    rw [hk, List.insertIdx_succ_cons] at h' ih
    cases h' with
    | stop hstop => exact absurd rfl (hstop _ rfl)
    | next h' => exact ih hints.tail hlt h'

/-- The sum of `getNextID` does not overflow. -/
def NoOverflow (ids : List ℤ) : Prop := 2 ≤ ids.length → ∀ e, FirstRun ids e → e < intMax

/-- The id that is picked behind another one is another one. -/
theorem nextId_takeId_ne {ids : List ℤ} (hints : Ints ids) (h : NoOverflow ids)
    (h' : NoOverflow (takeId ids)) : nextId (takeId ids) ≠ nextId ids := by
  match ids with
  | [] => decide
  | [a] =>
    have hpair : ∀ x, nextId [x, a] = wrap ((if a = wrap (x + 1) then a else x) + 1) := fun x => by
      have hget : nextId [x, a] = wrap ([x, a].getD (runEnd [x, a] - 1) 0 + 1) := rfl
      rw [hget, runEnd]
      split <;> rfl
    have hpick : nextId [a] = if a = 1 then 2 else 1 := rfl
    have htake : takeId [a] = [nextId [a], a] := rfl
    rw [htake, hpair, hpick]
    by_cases ha : a = 1
    · subst ha
      decide
    · rw [if_neg ha]
      by_cases htwo : a = 2
      · subst htwo
        decide
      · have hwrap : wrap (1 + 1) = 2 := by decide
        rw [hwrap, if_neg htwo, hwrap]
        decide
  | a :: b :: ids =>
    obtain ⟨e, he⟩ := exists_firstRun a (b :: ids)
    have hlt := h (by simp) e he
    have hnext := he.nextId_eq (by simp) hints hlt
    have htake : takeId (a :: b :: ids) =
        (a :: b :: ids).insertIdx (runEnd (a :: b :: ids)) (e + 1) := by
      rw [← hnext]
      rfl
    -- The list is not empty, and has a first run again.
    obtain ⟨c, rest, hcons⟩ : ∃ c rest, takeId (a :: b :: ids) = c :: rest :=
      List.exists_cons_of_length_pos (by rw [(perm_takeId _).length_eq]; simp)
    obtain ⟨e', he'⟩ := exists_firstRun c rest
    rw [← hcons] at he'
    have hlen : 2 ≤ (takeId (a :: b :: ids)).length := by rw [(perm_takeId _).length_eq]; simp
    rw [he'.nextId_eq hlen hints.takeId (h' hlen e' he'), hnext]
    rw [htake] at he'
    have := he.lt_of_insert hints hlt he'
    omega

/-- The sums of `getNextID` are in range exactly if the first run ends below `INT_MAX`. -/
theorem FirstRun.ints_sums {ids : List ℤ} {e : ℤ} (h : FirstRun ids e) (hints : Ints ids) :
    Ints (runSums ids ++ [ids.getD (runEnd ids - 1) 0 + 1]) ↔ e < intMax := by
  induction h with
  | @stop a ids hstop =>
    have ha := hints a (by simp)
    cases ids with
    | nil =>
      have hsum : runSums [a] ++ [[a].getD (runEnd [a] - 1) 0 + 1] = [a + 1] := rfl
      rw [hsum, Ints, List.forall_mem_singleton]
      omega
    | cons b ids =>
      rcases ha.2.lt_or_eq with hlt | rfl
      · -- The run ends with `a`, to which one is added twice.
        have hget := (FirstRun.stop hstop).getD_runEnd hints hlt
        have hb : b ≠ wrap (a + 1) := by
          rw [wrap_int_succ ⟨ha.1, hlt⟩]
          exact hstop b (by simp)
        rw [hget, runSums_cons, if_neg hb]
        refine iff_of_true (fun z hz => ?_) hlt
        obtain rfl : z = a + 1 := by simpa using hz
        omega
      · refine iff_of_false (fun hsums => ?_) (lt_irrefl _)
        have := (hsums (intMax + 1) (by simp [runSums_cons])).2
        omega
  | @next a e ids _ ih =>
    have ha := (hints a (by simp)).1
    have hsucc := hints (a + 1) (by simp)
    have hlt : intMin ≤ a ∧ a < intMax := by omega
    rw [getD_runEnd_next hlt, runSums_cons, if_pos (wrap_int_succ hlt).symm, ← ih hints.tail,
      List.cons_append]
    exact ⟨Ints.tail, fun hrest => List.forall_mem_cons.mpr ⟨hsucc, hrest⟩⟩

/-- The sums of `getNextID` are in range and the id that it returns is positive exactly if the first
run of a list of two ids or more does not end below zero, and not at `INT_MAX`. -/
theorem next_inRange_iff {ids : List ℤ} (hints : Ints ids) :
    Ints (nextSums ids) ∧ 1 ≤ nextId ids ↔
      (2 ≤ ids.length → ∀ e, FirstRun ids e → 0 ≤ e ∧ e < intMax) := by
  match ids with
  | [] => exact iff_of_true ⟨by simp [nextSums, Ints], le_rfl⟩ (by simp)
  | [a] =>
    refine iff_of_true ⟨by simp [nextSums, Ints], ?_⟩ (by simp)
    rw [nextId]
    split <;> omega
  | a :: b :: ids =>
    obtain ⟨e, he⟩ := exists_firstRun a (b :: ids)
    have hsums : Ints (nextSums (a :: b :: ids)) ↔ e < intMax := he.ints_sums hints
    have hnext : e < intMax → nextId (a :: b :: ids) = e + 1 := he.nextId_eq (by simp) hints
    constructor
    · rintro ⟨hin, hpos⟩ - e' he'
      obtain rfl := he.unique he'
      have hlt := hsums.mp hin
      rw [hnext hlt] at hpos
      omega
    · intro h
      obtain ⟨hzero, hlt⟩ := h (by simp) e he
      rw [hnext hlt]
      exact ⟨hsums.mpr hlt, by omega⟩

/-! ## The sums of a scan -/

section

variable {root : Str} {top : Location} {fs : FileSystem}

/-- In a scan a file is listed with an id that is new in the list of its entity, when the first run
of that list goes up to `INT_MAX` and another id stands behind it. -/
def ScanRunsOver (fs : FileSystem) (root : Str) (top : Location) (listing : List (List Str))
    (pathCounts : PathCounts) : Prop :=
  ∃ before names behind id, listing = before ++ names :: behind ∧
    readId fs top names = some (.ok id) ∧
    let ids :=
      (filled (scannedIds fs root top before) pathCounts (entityName fs root names)).getD []
    id ∉ ids ∧ RunsOver ids

/-- The sums for one id are in range exactly if it is in the list, or the first run of the list does
not go over. -/
theorem ints_insertSums_iff {ids : List ℤ} (h : Ints ids) (id : ℤ) :
    Ints (insertSums ids id) ↔ ¬ (id ∉ ids ∧ RunsOver ids) := by
  have hsums : insertSums ids id = if id ∈ ids then [] else runSums ids := by
    match ids with
    | [] => rfl
    | [_] => rfl
    | _ :: _ :: _ => rfl
  rw [hsums]
  split
  · next hid => exact iff_of_true (by simp [Ints]) fun hboth => hboth.1 hid
  · next hid =>
    rw [ints_runSums_iff h]
    simp [hid]

/-- The sums of a scan are in range exactly if no list runs over in it. -/
theorem ints_scanSums_iff (listing : List (List Str)) {pathCounts : PathCounts}
    (h : ∀ entity, Ints ((pathCounts entity).getD [])) :
    Ints (scanSums fs root top listing pathCounts) ↔
      ¬ ScanRunsOver fs root top listing pathCounts := by
  induction listing generalizing pathCounts with
  | nil =>
    refine iff_of_true (by simp [scanSums, Ints]) ?_
    rintro ⟨before, names, behind, id, hsplit, -⟩
    simp at hsplit
  | cons names listing ih =>
    -- The first file adds its sums to those of the scan of the others, from the lists it leaves.
    have hrest := ih fun entity => @ints_filled root top fs _ entity (h entity) [names]
    have happend : Ints (scanSums fs root top (names :: listing) pathCounts) ↔
        (∀ id, readId fs top names = some (.ok id) →
          Ints (insertSums ((pathCounts (entityName fs root names)).getD []) id)) ∧
        Ints (scanSums fs root top listing
          (filled (scannedIds fs root top [names]) pathCounts)) := by
      rw [scanSums, Ints, List.forall_mem_append]
      refine and_congr_left fun _ => ?_
      split
      · next id hread => simp [hread, Ints]
      · next hread =>
        refine iff_of_true (by simp) fun id hid => absurd hid (hread id)
    rw [happend, hrest]
    constructor
    · rintro ⟨hhead, htail⟩ ⟨before, names', behind, id, hsplit, hread, hover⟩
      -- The list runs over at this file, or at one behind it.
      rcases before with _ | ⟨first, before⟩
      · obtain ⟨rfl, rfl⟩ := List.cons.inj hsplit
        exact (ints_insertSums_iff (h _) id).mp (hhead id hread) hover
      · obtain ⟨rfl, rfl⟩ := List.cons.inj hsplit
        rw [filled_scannedIds_cons] at hover
        exact htail ⟨before, names', behind, id, rfl, hread, hover⟩
    · intro hnot
      refine ⟨fun id hread => (ints_insertSums_iff (h _) id).mpr fun hover => ?_, ?_⟩
      · exact hnot ⟨[], names, listing, id, rfl, hread, hover⟩
      · rintro ⟨before, names', behind, id, rfl, hread, hover⟩
        refine hnot ⟨names :: before, names', behind, id, rfl, hread, ?_⟩
        rw [filled_scannedIds_cons]
        exact hover

/-- The sums of the constructor are in range, and for every entity those of `getNextID`, which
returns a positive id. -/
def ArithmeticInRange (root : Str) (top : Location) (s : State) (listing : List (List Str))
    (pathCounts : PathCounts) : Prop :=
  Ints (scanSums s.fs root top listing s.pathCounts) ∧
    ∀ entity, Ints (nextSums ((pathCounts entity).getD [])) ∧
      1 ≤ nextId ((pathCounts entity).getD [])

/-- Wherever a run of requests has come to, with an empty index at the start and any files, the sums
of the next handler are in range and its next ids positive exactly if no list runs over in its scan,
and behind the scan no list of two ids or more has a first run that ends below zero or at
`INT_MAX`. -/
theorem arithmetic_of_run_iff {st s : State} (hroot : st.fs.resolve root = some top)
    (hdir : st.fs.node top = some .directory) (hempty : ∀ entity, st.pathCounts entity = none)
    {tr : List (Input × Response)} (hrun : Run (Served root top) st tr s)
    {listing : List (List Str)} {pathCounts : PathCounts}
    (hscan : construct root listing s = .ok pathCounts) :
    ArithmeticInRange root top s listing pathCounts ↔
      ¬ ScanRunsOver s.fs root top listing s.pathCounts ∧
        ∀ entity, 2 ≤ ((pathCounts entity).getD []).length →
          ∀ e, FirstRun ((pathCounts entity).getD []) e → 0 ≤ e ∧ e < intMax := by
  have hints : ∀ entity, Ints ((s.pathCounts entity).getD []) :=
    ints_of_run ⟨hroot, hdir⟩ hempty hrun
  have hscanned : ∀ entity, Ints ((pathCounts entity).getD []) := fun entity =>
    ints_scan (rooted_of_run ⟨hroot, hdir⟩ hrun) hscan (hints entity)
  rw [ArithmeticInRange, ints_scanSums_iff listing hints]
  exact and_congr_right fun _ => forall_congr' fun entity => next_inRange_iff (hscanned entity)

end

/-- Files 1 and 3. -/
theorem arithmetic_of_run_two :
    ArithmeticInRange "/r".toList [['r']] (storedIds [1, 3]) (listingOf [1, 3])
        (indexed (listingOf [1, 3]) fun _ => none) ↔
      ¬ ScanRunsOver (storedIds [1, 3]).fs "/r".toList [['r']] (listingOf [1, 3]) (fun _ => none) ∧
        ∀ entity, 2 ≤ ((indexed (listingOf [1, 3]) (fun _ => none) entity).getD []).length →
          ∀ e, FirstRun ((indexed (listingOf [1, 3]) (fun _ => none) entity).getD []) e →
            0 ≤ e ∧ e < intMax :=
  arithmetic_of_run_iff (resolve_storedIds _) (by decide +kernel) (fun _ => rfl) .nil
    (construct_eq (resolve_storedIds _) (store_storedIds (by decide))
      (isListing_storedIds (by decide)))

/-- The last two numbers of `int` as ids: the sum for the next one overflows. -/
theorem not_arithmetic : ¬ ∀ (root : Str) (top : Location) (st s : State)
    (tr : List (Input × Response)) (listing : List (List Str)) (pathCounts : PathCounts),
    st.fs.resolve root = some top → st.fs.node top = some .directory →
    (∀ entity, st.pathCounts entity = none) → Run (Served root top) st tr s →
    IsListing s.fs top listing → construct root listing s = .ok pathCounts →
    ArithmeticInRange root top s listing pathCounts := by
  intro h
  have hscan := @construct_of_isOk "/r".toList [['r']] (storedIds [2147483646, 2147483647])
    (resolve_storedIds _) (by decide +kernel) (listingOf [2147483646, 2147483647])
    (by decide +kernel)
  have harith := h "/r".toList [['r']] _ _ [] _ _ (resolve_storedIds _) (by decide +kernel)
    (fun _ => rfl) .nil (isListing_storedIds (by decide)) hscan
  have hids : (filled (scannedIds (storedIds [2147483646, 2147483647]).fs "/r".toList [['r']]
      (listingOf [2147483646, 2147483647])) (fun _ => none) ['E']).getD [] =
      [2147483646, 2147483647] := by decide +kernel
  have hsums := (harith.2 ['E']).1
  have hsums' : Ints (nextSums [2147483646, 2147483647]) := hids ▸ hsums
  exact absurd hsums' (by decide)

end CrazyCode.Api
