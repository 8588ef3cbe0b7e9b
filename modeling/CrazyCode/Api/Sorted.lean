import CrazyCode.Api.Lists

/-!
# Lists that go up

The constructor and `getNextID` look for a gap between neighbours, so they take the lists of ids to
be sorted. They do not keep them so. An id that the constructor reads third or later goes behind the
first run, where it belongs only if it falls in that gap (`increasing_foldl_insertId_iff`). The id
that `getNextID` picks goes there too, but for a list of one id it goes in front, so that 2 is put
before 1 (`increasing_takeId_iff`).

In a run that meets neither case every list is sorted (`sorted_of_run`). One POST to an entity with
file 1 is a run that does (`not_sorted`).
-/

namespace CrazyCode.Api

open Text Decimal Posix Profile Server

/-- The ids go up. -/
abbrev Increasing (ids : List ℤ) : Prop := ids.Pairwise (· < ·)

/-- Some ids are below `id`, and of these only the last has no successor among them. -/
def InFirstGap (ids : List ℤ) (id : ℤ) : Prop :=
  (∃ b ∈ ids, b < id) ∧ ∀ b ∈ ids, b < id → b + 1 ∈ ids ∨ ∀ c ∈ ids, c < id → c ≤ b

/-- A list into which `getNextID` puts an id where it belongs. -/
def PutsInPlace (ids : List ℤ) : Prop :=
  ids ≠ [1] ∧ (2 ≤ ids.length → ∀ e, FirstRun ids e → e < intMax)

/-! ## The two insertions -/

/-- A list that goes up is in order. -/
theorem inOrder_of_increasing {ids : List ℤ} (h : Increasing ids) : InOrder ids := by
  intro a b c hsub _
  have hsorted := h.sublist hsub
  simp only [List.pairwise_cons, List.mem_cons, List.not_mem_nil, or_false] at hsorted
  exact ⟨hsorted.1 b (.inl rfl), hsorted.2.1 c rfl⟩

/-- An id is put behind `e` in a list that goes up. -/
theorem increasing_insert_iff {run rest : List ℤ} {e v : ℤ} (h : Increasing (run ++ e :: rest)) :
    Increasing (run ++ e :: v :: rest) ↔ e < v ∧ ∀ w ∈ rest, v < w := by
  constructor
  · intro hinc
    have htail := (List.pairwise_append.mp hinc).2.1
    rw [List.pairwise_cons, List.pairwise_cons] at htail
    exact ⟨htail.1 v List.mem_cons_self, htail.2.1⟩
  · rintro ⟨hev, hvw⟩
    obtain ⟨hrun, htail, hcross⟩ := List.pairwise_append.mp h
    obtain ⟨herest, hrest⟩ := List.pairwise_cons.mp htail
    refine List.pairwise_append.mpr ⟨hrun, ?_, fun z hz w hw => ?_⟩
    · refine List.pairwise_cons.mpr ⟨fun w hw => ?_, List.pairwise_cons.mpr ⟨hvw, hrest⟩⟩
      rcases List.mem_cons.mp hw with rfl | hw
      · exact hev
      · exact herest w hw
    · have hze := hcross z hz e List.mem_cons_self
      rcases List.mem_cons.mp hw with rfl | hw
      · exact hze
      rcases List.mem_cons.mp hw with rfl | hw
      · exact hze.trans hev
      · exact hze.trans (herest w hw)

/-- Behind the first run of a list that goes up all ids are above the gap. -/
theorem succ_lt_of_rest {run rest : List ℤ} {e : ℤ} (h : Increasing (run ++ e :: rest))
    (hhead : ∀ w ∈ rest.head?, w ≠ e + 1) : ∀ w ∈ rest, e + 1 < w := by
  obtain ⟨herest, hrest⟩ := List.pairwise_cons.mp (List.pairwise_append.mp h).2.1
  cases rest with
  | nil => simp
  | cons w rest =>
    have hw : e + 1 < w := by
      have := herest w List.mem_cons_self
      have := hhead w rfl
      omega
    intro w' hw'
    rcases List.mem_cons.mp hw' with rfl | hw'
    · exact hw
    · exact hw.trans ((List.pairwise_cons.mp hrest).1 w' hw')

section FirstGap

variable {run rest : List ℤ} {a e id : ℤ}

/-- An id is in the first run, its last one, or above the gap. -/
theorem mem_firstGap_cases (hrun : ∀ z ∈ run, z < e) (hrest : ∀ w ∈ rest, e + 1 < w) :
    ∀ c ∈ run ++ e :: rest, c < e ∧ c ∈ run ∨ c = e ∨ e + 1 < c ∧ c ∈ rest := by
  intro c hc
  rcases List.mem_append.mp hc with hc | hc
  · exact .inl ⟨hrun c hc, hc⟩
  rcases List.mem_cons.mp hc with hc | hc
  · exact .inr (.inl hc)
  · exact .inr (.inr ⟨hrest c hc, hc⟩)

/-- An id that falls in the first gap is above the first run, which has all that is below its
end. -/
theorem InFirstGap.lt_of_run (h : InFirstGap (run ++ e :: rest) id)
    (hlow : ∀ c ∈ run ++ e :: rest, a ≤ c) (hall : ∀ z, a ≤ z → z < e → z ∈ run)
    (hid : id ∉ run ++ e :: rest) : e < id := by
  obtain ⟨⟨c, hc, hcid⟩, -⟩ := h
  by_contra hle
  have hac := hlow c hc
  rcases (show id < e ∨ id = e by omega) with hlt | rfl
  · exact hid (List.mem_append_left _ (hall id (by omega) hlt))
  · exact hid (by simp)

/-- An id that falls in the first gap is below what stands behind the first run. -/
theorem InFirstGap.lt_of_rest (h : InFirstGap (run ++ e :: rest) id) (heid : e < id)
    (hrun : ∀ z ∈ run, z < e) (hrest : ∀ w ∈ rest, e + 1 < w) (hid : id ∉ run ++ e :: rest) :
    ∀ w ∈ rest, id < w := by
  intro w hw
  have hew := hrest w hw
  by_contra hle
  have hwid : w ≠ id := by
    rintro rfl
    exact hid (by simp [hw])
  -- The end of the run has no successor, and it is not the last one below `id` either.
  rcases h.2 e (by simp) heid with hsucc | hlast
  · rcases mem_firstGap_cases hrun hrest (e + 1) hsucc with ⟨hlt, -⟩ | heq | ⟨hlt, -⟩ <;> omega
  · have := hlast w (by simp [hw]) (by omega)
    omega

/-- What is above the first run, and below what stands behind it, falls in the first gap. -/
theorem inFirstGap_of_lt (heid : e < id) (habove : ∀ w ∈ rest, id < w)
    (hlow : ∀ c ∈ run ++ e :: rest, a ≤ c) (hrun : ∀ z ∈ run, z < e)
    (hall : ∀ z, a ≤ z → z < e → z ∈ run) (hrest : ∀ w ∈ rest, e + 1 < w) :
    InFirstGap (run ++ e :: rest) id := by
  have hcases := mem_firstGap_cases hrun hrest
  refine ⟨⟨e, by simp, heid⟩, fun c hc hcid => ?_⟩
  rcases hcases c hc with ⟨hce, -⟩ | rfl | ⟨-, hc'⟩
  · -- Its successor is in the run, or the last one.
    left
    have hac := hlow c hc
    rcases (show c + 1 < e ∨ c + 1 = e by omega) with hlt | heq
    · exact List.mem_append_left _ (hall (c + 1) (by omega) hlt)
    · simp [heq]
  · right
    intro c' hc' hc'id
    rcases hcases c' hc' with ⟨hlt, -⟩ | rfl | ⟨-, hc'⟩
    · exact hlt.le
    · exact le_rfl
    · exact absurd (habove c' hc') (by omega)
  · exact absurd (habove c hc') (by omega)

/-- An id falls in the first gap of a list that goes up exactly if it is above the first run, and
below what stands behind it. -/
theorem inFirstGap_iff (hlow : ∀ c ∈ run ++ e :: rest, a ≤ c) (hrun : ∀ z ∈ run, z < e)
    (hall : ∀ z, a ≤ z → z < e → z ∈ run) (hrest : ∀ w ∈ rest, e + 1 < w)
    (hid : id ∉ run ++ e :: rest) :
    InFirstGap (run ++ e :: rest) id ↔ e < id ∧ ∀ w ∈ rest, id < w := by
  constructor
  · intro h
    have heid := h.lt_of_run hlow hall hid
    exact ⟨heid, h.lt_of_rest heid hrun hrest hid⟩
  · rintro ⟨heid, habove⟩
    exact inFirstGap_of_lt heid habove hlow hrun hall hrest

end FirstGap

/-- The constructor keeps a list of two ids or more going up exactly if the new id falls in the
first gap. -/
theorem increasing_insertId_iff {ids : List ℤ} {id : ℤ} (hpos : Positive ids)
    (h : Increasing ids) (hlen : 2 ≤ ids.length) (hid : id ∉ ids) :
    Increasing (insertId ids id) ↔ InFirstGap ids id := by
  match ids with
  | [] | [_] => simp at hlen
  | a :: b :: ids =>
    obtain ⟨e, he⟩ := exists_firstRun a (b :: ids)
    obtain ⟨run, rest, hids, hend, hrun, -, hall, hhead⟩ := he.split hpos
    have hinsert : insertId (a :: b :: ids) id = run ++ e :: id :: rest := by
      have hdef : insertId (a :: b :: ids) id =
          (a :: b :: ids).insertIdx (runEnd (a :: b :: ids)) id := if_neg hid
      rw [hdef]
      exact insertIdx_runEnd hids hend id
    have hlow : ∀ c ∈ a :: b :: ids, a ≤ c := fun c hc => by
      rcases List.mem_cons.mp hc with rfl | hc
      · exact le_rfl
      · exact ((List.pairwise_cons.mp h).1 c hc).le
    rw [hinsert]
    rw [hids] at h hid hlow ⊢
    rw [increasing_insert_iff h, inFirstGap_iff hlow (fun z hz => (hrun a rfl z hz).2) (hall a rfl)
      (succ_lt_of_rest h hhead) hid]

/-- What the constructor leaves of a list that does not go up does not go up. -/
theorem Increasing.of_insertId {ids : List ℤ} {id : ℤ} (h : Increasing (insertId ids id)) :
    Increasing ids := by
  unfold insertId at h
  split at h
  · exact h
  · split at h
    · exact .nil
    · exact List.pairwise_singleton _ _
    · exact h.sublist (List.sublist_insertIdx _ _ _)

/-- The first two ids are put in order. -/
theorem increasing_insertId_of_length {ids : List ℤ} {id : ℤ} (hlen : ids.length < 2)
    (hid : id ∉ ids) : Increasing (insertId ids id) := by
  match ids with
  | [] => exact List.pairwise_singleton _ _
  | [a] =>
    have hinsert : insertId [a] id = if a < id then [a, id] else [id, a] := if_neg hid
    have hne : id ≠ a := by simpa using hid
    rw [hinsert]
    split
    · next hlt => exact List.pairwise_pair.mpr hlt
    · next hlt => exact List.pairwise_pair.mpr (by omega)

/-- The list into which the constructor puts ids goes up exactly if each of them, from the third on,
falls in the first gap of those before it. -/
theorem increasing_foldl_insertId_iff {new : List ℤ} (hpos : Positive new) (hnodup : new.Nodup) :
    Increasing (new.foldl insertId []) ↔
      ∀ before id after, new = before ++ id :: after → 2 ≤ before.length →
        InFirstGap before id := by
  -- The last id is put into the list of the others.
  induction new using List.reverseRecOn with
  | nil => simp
  | append_singleton new id ih =>
    have hpos' : Positive new := hpos.subset (by simp)
    have hnodup' : new.Nodup := hnodup.sublist (by simp)
    have hid : id ∉ new := fun hmem => by
      have := List.nodup_append.mp hnodup
      exact this.2.2 id hmem id (by simp) rfl
    have ih := ih hpos' hnodup'
    have hfoldNodup : (new.foldl insertId []).Nodup := nodup_foldl_insertId new .nil
    have hmem : ∀ c, c ∈ new.foldl insertId [] ↔ c ∈ new := fun c => by
      rw [mem_foldl_insertId]
      simp
    have hperm : (new.foldl insertId []).Perm new :=
      (List.perm_ext_iff_of_nodup hfoldNodup hnodup').mpr hmem
    have hfoldPos : Positive (new.foldl insertId []) := hpos'.subset hperm.subset
    have hgap : InFirstGap (new.foldl insertId []) id ↔ InFirstGap new id := by
      simp only [InFirstGap, hmem]
    have hfree : id ∉ new.foldl insertId [] := fun h => hid ((hmem id).mp h)
    rw [List.foldl_append, List.foldl_cons, List.foldl_nil]
    constructor
    · intro hinc before id' after hsplit hlen
      rcases List.eq_nil_or_concat after with rfl | ⟨after, last, rfl⟩
      · obtain ⟨rfl, heq⟩ := List.append_inj' hsplit rfl
        obtain rfl : id = id' := by simpa using heq
        rw [← hgap]
        exact (increasing_insertId_iff hfoldPos hinc.of_insertId (hperm.length_eq ▸ hlen)
          hfree).mp hinc
      · have hsplit' : new ++ [id] = (before ++ id' :: after) ++ [last] := by simpa using hsplit
        exact ih.mp hinc.of_insertId before id' after (List.append_inj' hsplit' rfl).1 hlen
    · intro hgaps
      have hinc : Increasing (new.foldl insertId []) := by
        refine ih.mpr fun before id' after hsplit => ?_
        exact hgaps before id' (after ++ [id]) (by simp [hsplit])
      by_cases hlen : 2 ≤ new.length
      · rw [increasing_insertId_iff hfoldPos hinc (hperm.length_eq ▸ hlen) hfree, hgap]
        exact hgaps new id [] rfl hlen
      · exact increasing_insertId_of_length (by rw [hperm.length_eq]; omega) hfree

/-- `getNextID` keeps a list going up exactly if it puts the id that it picks in its place. -/
theorem increasing_takeId_iff {ids : List ℤ} (hpos : Positive ids) (h : Increasing ids) :
    Increasing (takeId ids) ↔ PutsInPlace ids := by
  match ids with
  | [] => simp [takeId, PutsInPlace]
  | [a] =>
    have ha := hpos a (by simp)
    have htake : takeId [a] = [if a = 1 then 2 else 1, a] := rfl
    have hplace : PutsInPlace [a] ↔ a ≠ 1 := by simp [PutsInPlace]
    rw [htake, hplace]
    refine List.pairwise_pair.trans ?_
    split <;> omega
  | a :: b :: ids =>
    obtain ⟨e, he⟩ := exists_firstRun a (b :: ids)
    obtain ⟨-, run, rest, hids, htake, -, -, -, hhead⟩ := he.takeId hpos
    have hplace : PutsInPlace (a :: b :: ids) ↔ e < intMax := by
      constructor
      · exact fun hplace => hplace.2 (by simp) e he
      · exact fun hlt => ⟨by simp, fun _ e' he' => he'.unique he ▸ hlt⟩
    have hrange := hpos e he.mem
    rw [htake, hplace]
    rw [hids] at h
    rw [increasing_insert_iff h]
    constructor
    · rintro ⟨hlt, -⟩
      -- The sum does not wrap around to a negative one.
      refine hrange.2.lt_of_ne fun heq => ?_
      rw [heq, wrap_intMax_succ] at hlt
      exact absurd hlt (by decide)
    · intro hlt
      rw [wrap_succ ⟨hrange.1, hlt⟩]
      exact ⟨by omega, succ_lt_of_rest h hhead⟩

/-- A list whose next id is put in its place has one. -/
theorem PutsInPlace.hasNext {ids : List ℤ} (h : PutsInPlace ids) (hpos : Positive ids) :
    HasNext ids := ⟨hpos, h.2⟩

/-! ## Runs -/

/-- Every list of the index goes up. -/
def State.Sorted (st : State) : Prop := ∀ entity, Increasing (st.ids entity)

/-- Each id that is listed third or later for its entity falls in the first gap of those listed
before. -/
def ListedInGaps (listing : List (List Str)) : Prop :=
  ∀ entity before id after, listedIds listing entity = before ++ id :: after →
    2 ≤ before.length → InFirstGap before id

/-- One request is handled, by a new handler. A POST is not for `.` or `..`, and the id that it
picks is put in its place. -/
structure OrderedStep (root : Str) (top : Location) (st : State) (i : Input) (o : Response)
    (st' : State) : Prop where
  entity : i.request.method = .post →
    i.request.target ≠ "/api/.".toList ∧ i.request.target ≠ "/api/..".toList
  place : ∀ entity, i.request.method = .post → i.profile.loginStatus = true →
    i.request.target = "/api/".toList ++ entity →
    PutsInPlace (State.ids ⟨st.fs, indexed i.listing st.pathCounts⟩ entity)
  listed : IsListing st.fs top i.listing
  served : serve root i.listing i.profile st i.request = .ok (o, st')

/-- The index of a store, in lists that go up. -/
structure Ordered (root : Str) (top : Location) (st : State) : Prop
    extends Counted root top st where
  index : Indexed top st
  sorted : st.Sorted

section Runs

variable {root : Str} {top : Location} {s s' : State} {i : Input} {o : Response}

/-- Each id is listed once. -/
theorem nodup_listedIds {fs : FileSystem} (hstore : Store top fs) {listing : List (List Str)}
    (hlisting : IsListing fs top listing) (entity : Str) : (listedIds listing entity).Nodup := by
  refine List.pairwise_filterMap.mpr
    (hlisting.1.imp_of_mem fun {names names'} hnames hnames' hne => ?_)
  obtain ⟨hnil, hnode⟩ := (hlisting.2 names).mp hnames
  obtain ⟨hnil', hnode'⟩ := (hlisting.2 names').mp hnames'
  obtain ⟨n, hn⟩ := Option.ne_none_iff_exists'.mp hnode
  obtain ⟨n', hn'⟩ := Option.ne_none_iff_exists'.mp hnode'
  intro id hid id' hid' heq
  cases hstore.fits names n hnil hn with
  | entity name => simp at hid
  | item dir hrange content =>
    cases hstore.fits names' n' hnil' hn' with
    | entity name => simp at hid'
    | item dir' hrange' content' =>
      -- Two files of one entity with one id have one name.
      simp only [stoi_decimal_pos hrange, Except.toOption, Option.ite_none_right_eq_some,
        Option.some.injEq] at hid
      simp only [stoi_decimal_pos hrange', Except.toOption, Option.ite_none_right_eq_some,
        Option.some.injEq] at hid'
      exact hne (by rw [hid.1, hid'.1, hid.2, hid'.2, heq])

/-- The first scan makes lists that go up, if the ids are listed in gaps. -/
theorem sorted_scan {fs : FileSystem} (hstore : Store top fs) {listing : List (List Str)}
    (hlisting : IsListing fs top listing) (hgaps : ListedInGaps listing) :
    State.Sorted ⟨fs, indexed listing fun _ => none⟩ := fun entity => by
  rw [scan_ids]
  refine (increasing_foldl_insertId_iff (fun id hid => ?_)
    (nodup_listedIds hstore hlisting entity)).mpr (hgaps entity)
  exact ((mem_listedIds hstore hlisting).mp hid).1

/-- What is put in its place does not overflow. -/
theorem OrderedStep.counted (hstep : OrderedStep root top s i o s') :
    CountedStep root top s i o s' :=
  ⟨hstep.entity, fun entity hpost hlogin htarget => (hstep.place entity hpost hlogin htarget).2,
    hstep.listed, hstep.served⟩

/-- A request behind a scan that made lists that go up, or left them so. -/
theorem OrderedStep.keeps (hstep : OrderedStep root top s i o s')
    (h : Ordered root top ⟨s.fs, indexed i.listing s.pathCounts⟩) : Ordered root top s' := by
  have hserved := hstep.served
  have hroot : s.fs.resolve root = some top := h.resolve
  rw [serve_eq hroot h.index.store hstep.listed] at hserved
  have hindex := (h.index.handleRequest h.resolve i.profile (fun entity hpost hlogin htarget =>
    (hstep.place entity hpost hlogin htarget).hasNext (h.positive entity)) hstep.entity).1
  have hids := handleRequest_ids root ⟨s.fs, indexed i.listing s.pathCounts⟩ i.profile i.request
  rw [Except.ok.inj hserved] at hindex hids
  refine ⟨hstep.counted.keeps h.toCounted, hindex, fun entity => ?_⟩
  rcases hids entity with heq | ⟨hpost, hlogin, htarget, heq⟩ | ⟨id, heq⟩ <;>
    rw [show s'.ids entity = _ from heq]
  · exact h.sorted entity
  · exact (increasing_takeId_iff (h.positive entity) (h.sorted entity)).mpr
      (hstep.place entity hpost hlogin htarget)
  · exact (h.sorted entity).sublist List.erase_sublist

/-- The first request. -/
theorem OrderedStep.of_store (hstep : OrderedStep root top s i o s')
    (hroot : s.fs.resolve root = some top) (hstore : Store top s.fs)
    (hbelow : ∀ entity, s.fs.node (top ++ [entity, decimal intMax]) = none)
    (hempty : ∀ entity, s.pathCounts entity = none) (hgaps : ListedInGaps i.listing) :
    Ordered root top s' := by
  have hnone : s.pathCounts = fun _ => none := funext hempty
  have hsorted := sorted_scan hstore hstep.listed hgaps
  have hfiles := scan_files hstore hbelow hstep.listed
  refine hstep.keeps ?_
  rw [hnone]
  refine ⟨⟨hroot, hstore, fun entity id hid => ?_⟩,
    Indexed.of_scan hstore hbelow hstep.listed fun entity => ?_, hsorted⟩
  · have hrange := (((hfiles entity).2 id).mp hid).1
    exact ⟨hrange.1, hrange.2.le⟩
  · rw [← scan_ids s.fs]
    exact inOrder_of_increasing (hsorted entity)

/-- A request behind the first one: its scan changes nothing. -/
theorem OrderedStep.of_ordered (hstep : OrderedStep root top s i o s') (h : Ordered root top s) :
    Ordered root top s' :=
  hstep.keeps (by rwa [h.index.indexed_eq hstep.listed])

/-- In every run from a store without a file `INT_MAX` and an empty index, in which the first
listing has its ids in gaps and every POST puts the id that it picks in its place, every list goes
up. -/
theorem sorted_of_run {st : State} (hroot : st.fs.resolve root = some top)
    (hstore : Store top st.fs)
    (hbelow : ∀ entity, st.fs.node (top ++ [entity, decimal intMax]) = none)
    (hempty : ∀ entity, st.pathCounts entity = none) {tr : List (Input × Response)}
    (hrun : Run (OrderedStep root top) st tr s)
    (hfirst : ∀ e ∈ tr.head?, ListedInGaps e.1.listing) : s.Sorted := by
  have hcases : tr = [] ∧ s = st ∨ tr ≠ [] ∧ Ordered root top s := by
    revert hfirst
    refine hrun.invariant (fun tr s => (∀ e ∈ tr.head?, ListedInGaps e.1.listing) →
      tr = [] ∧ s = st ∨ tr ≠ [] ∧ Ordered root top s) (fun _ => .inl ⟨rfl, rfl⟩)
      fun tr s i o s' _ ih hstep hfirst => .inr ⟨by simp, ?_⟩
    cases tr with
    | nil =>
      rcases ih (by simp) with ⟨-, rfl⟩ | ⟨hne, -⟩
      · exact hstep.of_store hroot hstore hbelow hempty (hfirst (i, o) (by simp))
      · exact absurd rfl hne
    | cons e tr =>
      rcases ih (by simpa using hfirst) with ⟨hnil, -⟩ | ⟨-, h⟩
      · cases hnil
      · exact hstep.of_ordered h
  rcases hcases with ⟨-, rfl⟩ | ⟨-, h⟩
  · exact fun entity => by simp [State.ids, hempty]
  · exact h.sorted

end Runs

/-- Files 1 and 3: a POST puts 2 between them. -/
theorem sorted_of_run_two : (postResult [1, 3]).2.Sorted := by
  have hrange : InRange [1, 3] := by decide
  have hlisted : ∀ entity,
      listedIds (listingOf [1, 3]) entity = if ['E'] = entity then [1, 3] else [] := by
    intro entity
    by_cases he : ['E'] = entity
    · subst he
      decide +kernel
    · simp [listingOf, listedIds, he]
  have hstep := step_storedIds hrange (by decide)
  have hordered : OrderedStep "/r".toList [['r']] (storedIds [1, 3]) (postInput [1, 3])
      (postResult [1, 3]).1 (postResult [1, 3]).2 := by
    refine ⟨fun _ => ⟨hstep.not_dot, hstep.not_dots⟩, fun entity _ _ htarget => ?_, hstep.listed,
      hstep.served⟩
    obtain rfl : ['E'] = entity := List.append_cancel_left
      (show "/api/".toList ++ ['E'] = "/api/".toList ++ entity from htarget)
    have hids : State.ids ⟨(storedIds [1, 3]).fs,
        indexed (listingOf [1, 3]) (storedIds [1, 3]).pathCounts⟩ ['E'] = [1, 3] := by
      decide +kernel
    show PutsInPlace (State.ids ⟨(storedIds [1, 3]).fs,
      indexed (listingOf [1, 3]) (storedIds [1, 3]).pathCounts⟩ ['E'])
    rw [hids]
    exact ⟨by decide, fun _ e he => (hrange e he.mem).2⟩
  refine sorted_of_run (resolve_storedIds _) (store_storedIds hrange) (bounded_storedIds hrange).2
    (fun _ => rfl) (Run.nil.snoc hordered) fun e he entity before id after hsplit hlen => ?_
  obtain rfl := Option.some.inj he
  have hlength := congrArg List.length ((hlisted entity).symm.trans hsplit)
  rw [List.length_append, List.length_cons] at hlength
  split at hlength
  · have : [(1 : ℤ), 3].length = 2 := rfl
    omega
  · have : ([] : List ℤ).length = 0 := rfl
    omega

/-- File 1: a POST puts 2 before it. -/
theorem not_sorted : ¬ ∀ (root : Str) (top : Location) (st : State),
    st.fs.resolve root = some top → Store top st.fs →
    (∀ entity, st.fs.node (top ++ [entity, decimal intMax]) = none) →
    (∀ entity, st.pathCounts entity = none) →
    ∀ (tr : List (Input × Response)) (s : State), Run (Step root top) st tr s → s.Sorted :=
    fun h => by
  have hrange : InRange [1] := by decide
  have hids : (postResult [1]).2.ids ['E'] = [2, 1] := by decide +kernel
  have hsorted := h _ _ _ (resolve_storedIds _) (store_storedIds hrange)
    (bounded_storedIds hrange).2
    (fun _ => rfl) _ _ (Run.nil.snoc (step_storedIds hrange (by decide))) ['E']
  rw [hids] at hsorted
  exact absurd hsorted (by decide)

end CrazyCode.Api
