import CrazyCode.Api.Handler
import Mathlib.Data.List.Pairwise
import Mathlib.Data.List.InsertIdx

/-!
# Lists of ids

`getNextID` picks the id behind the first run of consecutive ids of a list (`FirstRun.takeId`). It
is free when the list is `InOrder`: no id stands between two others, the second of which is greater
than the first, unless it is between them in value. A list with gaps, such as 1, 5, 3, is not in
order, and the second id that `getNextID` picks for it is taken.

Lists that `getNextID` builds from the empty one are in order (`inOrder_takeId`), and they stay so
when ids are removed (`InOrder.sublist`). Lists that the constructor builds are not always, since it
inserts every id from the third on behind the first run, whatever the id is.
-/

namespace CrazyCode.Api

open Text Decimal Server

/-- Ids that a list can have without a sum that overflows. -/
def InRange (ids : List ℤ) : Prop := ∀ id ∈ ids, 1 ≤ id ∧ id < intMax

instance (ids : List ℤ) : Decidable (InRange ids) :=
  inferInstanceAs (Decidable (∀ id ∈ ids, _))

/-- No id stands between two others, of which the second is greater than the first, unless it is
between them in value. -/
def InOrder (ids : List ℤ) : Prop :=
  ∀ a b c, [a, b, c].Sublist ids → a < c → a < b ∧ b < c

/-- Ids that a file can have. -/
def Positive (ids : List ℤ) : Prop := ∀ id ∈ ids, 1 ≤ id ∧ id ≤ intMax

/-- Ids in range are positive. -/
theorem InRange.positive {ids : List ℤ} (h : InRange ids) : Positive ids := fun id hid =>
  ⟨(h id hid).1, (h id hid).2.le⟩

/-- A part of a list of positive ids has positive ids. -/
theorem Positive.subset {ids ids' : List ℤ} (h : Positive ids) (hsub : ids' ⊆ ids) :
    Positive ids' := fun id hid => h id (hsub hid)

/-- The successor of an id in range does not wrap around. -/
theorem wrap_succ {id : ℤ} (h : 1 ≤ id ∧ id < intMax) : wrap (id + 1) = id + 1 := by
  have hmin : intMin = -2147483648 := rfl
  exact wrap_int_succ ⟨by omega, h.2⟩

/-- The successor of `INT_MAX` wraps around to an id that no file has. -/
theorem wrap_intMax_succ : wrap (intMax + 1) = intMin := by decide

/-- A positive id is the sum that wraps around exactly if it is the successor. -/
theorem eq_wrap_succ_iff {a b : ℤ} (ha : 1 ≤ a ∧ a ≤ intMax) (hb : 1 ≤ b ∧ b ≤ intMax) :
    b = wrap (a + 1) ↔ b = a + 1 := by
  rcases ha.2.lt_or_eq with hlt | rfl
  · rw [wrap_succ ⟨ha.1, hlt⟩]
  · have hmin : intMin = -2147483648 := rfl
    rw [wrap_intMax_succ]
    omega

/-! ## The first run -/

/-- `e` is the last id of the first run of consecutive ids of a list. -/
inductive FirstRun : List ℤ → ℤ → Prop
  | stop {a : ℤ} {ids : List ℤ} : (∀ b ∈ ids.head?, b ≠ a + 1) → FirstRun (a :: ids) a
  | next {a e : ℤ} {ids : List ℤ} : FirstRun ((a + 1) :: ids) e → FirstRun (a :: (a + 1) :: ids) e

/-- A list with an id has a first run. -/
theorem exists_firstRun (a : ℤ) (ids : List ℤ) : ∃ e, FirstRun (a :: ids) e := by
  induction ids generalizing a with
  | nil => exact ⟨a, .stop (by simp)⟩
  | cons b ids ih =>
    by_cases hb : b = a + 1
    · subst hb
      obtain ⟨e, he⟩ := ih (a + 1)
      exact ⟨e, .next he⟩
    · exact ⟨a, .stop (by simpa using hb)⟩

/-- The last id of the first run is determined. -/
theorem FirstRun.unique {ids : List ℤ} {e e' : ℤ} (h : FirstRun ids e) (h' : FirstRun ids e') :
    e = e' := by
  induction h with
  | stop hstop =>
    cases h' with
    | stop => rfl
    | next => exact absurd rfl (hstop _ (by simp))
  | next _ ih =>
    cases h' with
    | stop hstop => exact absurd rfl (hstop _ (by simp))
    | next h' => exact ih h'

/-- The last id of a run is not below the first id of its list. -/
theorem le_of_run {a e : ℤ} {ids run rest : List ℤ} (hids : a :: ids = run ++ e :: rest)
    (hrun : ∀ z ∈ run, a ≤ z ∧ z < e) : a ≤ e := by
  rcases run with _ | ⟨c, run⟩
  · exact (List.cons.inj hids).1.le
  · exact (hrun c (by simp)).1.trans (hrun c (by simp)).2.le

/-- The first run goes up from the first id of the list to `e`, without a gap, and the id behind it
is not the successor of `e`. The loop over the list stops behind it. -/
theorem FirstRun.split {ids : List ℤ} {e : ℤ} (h : FirstRun ids e) (hpos : Positive ids) :
    ∃ run rest, ids = run ++ e :: rest ∧ runEnd ids = run.length + 1 ∧
      (∀ a ∈ ids.head?, ∀ z ∈ run, a ≤ z ∧ z < e) ∧ run.Pairwise (· < ·) ∧
      (∀ a ∈ ids.head?, ∀ z, a ≤ z → z < e → z ∈ run) ∧ ∀ w ∈ rest.head?, w ≠ e + 1 := by
  induction h with
  | @stop a ids hstop =>
    refine ⟨[], ids, rfl, ?_, by simp, .nil, fun z hz => ?_, hstop⟩
    · -- The run is `a` alone.
      cases ids with
      | nil => rfl
      | cons b ids =>
        rw [runEnd, if_neg]
        · rfl
        · rw [eq_wrap_succ_iff (hpos a (by simp)) (hpos b (by simp))]
          exact hstop b (by simp)
    · obtain rfl := Option.some.inj hz
      intro z h₁ h₂
      omega
  | @next a e ids _ ih =>
    -- The run goes on with `a + 1`.
    obtain ⟨run, rest, hids, hend, hrun, hpair, hall, hhead⟩ :=
      ih fun id hid => hpos id (List.mem_cons_of_mem _ hid)
    have hrun := hrun (a + 1) (by simp)
    have hall := hall (a + 1) (by simp)
    have hle : a + 1 ≤ e := le_of_run hids hrun
    refine ⟨a :: run, rest, by rw [hids]; rfl, ?_, ?_, ?_, ?_, hhead⟩
    · have hwrap := eq_wrap_succ_iff (hpos a (by simp)) (hpos (a + 1) (by simp))
      rw [runEnd, if_pos (hwrap.mpr rfl), hend]
      rfl
    · intro c hc z hz
      obtain rfl := Option.some.inj hc
      rcases List.mem_cons.mp hz with rfl | hz
      · omega
      · have := hrun z hz
        omega
    · exact List.pairwise_cons.mpr ⟨fun z hz => by have := hrun z hz; omega, hpair⟩
    · intro c hc z h₁ h₂
      obtain rfl := Option.some.inj hc
      rcases h₁.eq_or_lt with rfl | hlt
      · exact List.mem_cons_self
      · exact List.mem_cons_of_mem _ (hall z (by omega) h₂)

/-- The first run of a list with an id ends in it. -/
theorem runEnd_le (a : ℤ) (ids : List ℤ) : runEnd (a :: ids) ≤ (a :: ids).length := by
  induction ids generalizing a with
  | nil => exact le_rfl
  | cons b ids ih =>
    rw [runEnd]
    split
    · exact Nat.succ_le_succ (ih b)
    · simp

/-- An element is inserted between two parts of a list. -/
theorem insertIdx_length {α : Type*} (l₁ l₂ : List α) (v : α) :
    (l₁ ++ l₂).insertIdx l₁.length v = l₁ ++ v :: l₂ := by
  induction l₁ with
  | nil => rfl
  | cons c l₁ ih => rw [List.cons_append, List.length_cons, List.insertIdx_succ_cons, ih]; rfl

/-- What is inserted behind the first run. -/
theorem insertIdx_runEnd {ids run rest : List ℤ} {e : ℤ} (hids : ids = run ++ e :: rest)
    (hend : runEnd ids = run.length + 1) (v : ℤ) :
    ids.insertIdx (runEnd ids) v = run ++ e :: v :: rest := by
  have hlen : run.length + 1 = (run ++ [e]).length := by simp
  rw [hend, hids, hlen, List.append_cons, insertIdx_length, List.append_assoc]
  rfl

/-- The id that `getNextID` picks for a list of two ids or more, and where it puts it: behind the
first run. -/
theorem FirstRun.takeId {a b e : ℤ} {ids : List ℤ} (h : FirstRun (a :: b :: ids) e)
    (hpos : Positive (a :: b :: ids)) :
    nextId (a :: b :: ids) = wrap (e + 1) ∧
      ∃ run rest, a :: b :: ids = run ++ e :: rest ∧
        Api.takeId (a :: b :: ids) = run ++ e :: wrap (e + 1) :: rest ∧
        (∀ z ∈ run, a ≤ z ∧ z < e) ∧ run.Pairwise (· < ·) ∧ (∀ z, a ≤ z → z < e → z ∈ run) ∧
        ∀ w ∈ rest.head?, w ≠ e + 1 := by
  obtain ⟨run, rest, hids, hend, hrun, hpair, hall, hhead⟩ := h.split hpos
  have hnext : nextId (a :: b :: ids) = wrap (e + 1) := by
    have hget : nextId (a :: b :: ids) =
        wrap ((a :: b :: ids).getD (runEnd (a :: b :: ids) - 1) 0 + 1) := rfl
    have hlast : (run ++ e :: rest).getD run.length 0 = e := by simp
    rw [hget, hend, hids, Nat.add_sub_cancel, hlast]
  have htake : Api.takeId (a :: b :: ids) = run ++ e :: wrap (e + 1) :: rest := by
    have hinsert : Api.takeId (a :: b :: ids) =
        (a :: b :: ids).insertIdx (runEnd (a :: b :: ids)) (nextId (a :: b :: ids)) := rfl
    rw [hinsert, hnext]
    exact insertIdx_runEnd hids hend _
  exact ⟨hnext, run, rest, hids, htake, hrun a (by simp), hpair, hall a (by simp), hhead⟩

/-- The id that `getNextID` picks for a list of two ids or more. -/
theorem FirstRun.nextId {ids : List ℤ} {e : ℤ} (h : FirstRun ids e) (hlen : 2 ≤ ids.length)
    (hpos : Positive ids) : Api.nextId ids = wrap (e + 1) := by
  match ids with
  | [] | [_] => simp at hlen
  | a :: b :: ids => exact (h.takeId hpos).1

/-- Positive ids for which the sum of `getNextID` does not overflow: the first run of a list of two
or more does not end at `INT_MAX`. -/
def HasNext (ids : List ℤ) : Prop :=
  Positive ids ∧ (2 ≤ ids.length → ∀ e, FirstRun ids e → e < intMax)

/-- The last id of the first run is an id of the list. -/
theorem FirstRun.mem {ids : List ℤ} {e : ℤ} (h : FirstRun ids e) : e ∈ ids := by
  induction h with
  | stop => exact List.mem_cons_self
  | next _ ih => exact List.mem_cons_of_mem _ ih

/-- There is no overflow when no id is `INT_MAX`. -/
theorem InRange.hasNext {ids : List ℤ} (h : InRange ids) : HasNext ids :=
  ⟨h.positive, fun _ e he => (h e he.mem).2⟩

/-- Without an overflow the id that is picked is the successor of the last one of the first run. -/
theorem takeId_eq {a b : ℤ} {ids : List ℤ} (h : HasNext (a :: b :: ids)) :
    ∃ run e rest, a :: b :: ids = run ++ e :: rest ∧ (1 ≤ e ∧ e < intMax) ∧
      nextId (a :: b :: ids) = e + 1 ∧
      takeId (a :: b :: ids) = run ++ e :: (e + 1) :: rest ∧
      (∀ z ∈ run, a ≤ z ∧ z < e) ∧ run.Pairwise (· < ·) ∧ (∀ z, a ≤ z → z < e → z ∈ run) ∧
      ∀ w ∈ rest.head?, w ≠ e + 1 := by
  obtain ⟨e, he⟩ := exists_firstRun a (b :: ids)
  obtain ⟨hnext, run, rest, hids, htake, hrun⟩ := he.takeId h.1
  have hrange : 1 ≤ e ∧ e < intMax := ⟨(h.1 e he.mem).1, h.2 (by simp) e he⟩
  rw [wrap_succ hrange] at hnext htake
  exact ⟨run, e, rest, hids, hrange, hnext, htake, hrun⟩

/-! ## The id that is picked -/

/-- `getNextID` puts the id that it picks into the list. -/
theorem perm_takeId (ids : List ℤ) : (takeId ids).Perm (nextId ids :: ids) := by
  match ids with
  | [] => exact .refl _
  | [a] => exact .refl _
  | a :: b :: ids => exact List.perm_insertIdx _ _ (runEnd_le a (b :: ids))

/-- The id that is picked is positive. -/
theorem one_le_nextId {ids : List ℤ} (h : HasNext ids) : 1 ≤ nextId ids := by
  match ids with
  | [] => exact le_rfl
  | [a] =>
    rw [nextId]
    split <;> omega
  | a :: b :: ids =>
    obtain ⟨run, e, rest, -, hrange, hnext, -⟩ := takeId_eq h
    omega

/-- The id that is picked is an `int`. -/
theorem nextId_le {ids : List ℤ} (h : HasNext ids) : nextId ids ≤ intMax := by
  have hmax : intMax = 2147483647 := rfl
  match ids with
  | [] =>
    show 1 ≤ intMax
    omega
  | [a] =>
    rw [nextId]
    split <;> omega
  | a :: b :: ids =>
    obtain ⟨run, e, rest, -, hrange, hnext, -⟩ := takeId_eq h
    omega

/-- `getNextID` leaves positive ids. -/
theorem positive_takeId {ids : List ℤ} (h : HasNext ids) : Positive (takeId ids) := fun id hid => by
  rcases List.mem_cons.mp ((perm_takeId ids).mem_iff.mp hid) with rfl | hid
  · exact ⟨one_le_nextId h, nextId_le h⟩
  · exact h.1 id hid

/-- The id that is picked for a list in order is free. -/
theorem nextId_not_mem {ids : List ℤ} (h : HasNext ids) (hord : InOrder ids) :
    nextId ids ∉ ids := by
  match ids with
  | [] => simp
  | [a] =>
    rw [nextId, List.mem_singleton]
    split <;> omega
  | a :: b :: ids =>
    obtain ⟨run, e, rest, hids, -, hnext, -, hrun, -, -, hhead⟩ := takeId_eq h
    rw [hids] at hord ⊢
    rw [← hids, hnext]
    rw [hids]
    intro hmem
    rcases List.mem_append.mp hmem with hmem | hmem
    · have := hrun _ hmem
      omega
    rcases List.mem_cons.mp hmem with hmem | hmem
    · omega
    -- Behind the run there is another id first, and it would have to be between `e` and `e + 1`.
    cases rest with
    | nil => simp at hmem
    | cons w rest =>
      have hw : w ≠ e + 1 := hhead w (by simp)
      have hmem : e + 1 ∈ rest := (List.mem_cons.mp hmem).resolve_left (Ne.symm hw)
      have hsub : [e, w, e + 1].Sublist (run ++ e :: w :: rest) :=
        (((List.singleton_sublist.mpr hmem).cons_cons w).cons_cons e).trans
          (List.sublist_append_right _ _)
      have := hord e w (e + 1) hsub (by omega)
      omega

/-- The last id of the first run is not below the first id of the list. -/
theorem FirstRun.le {a e : ℤ} {ids : List ℤ} (h : FirstRun (a :: ids) e) : a ≤ e := by
  generalize hids : a :: ids = l at h
  induction h generalizing a ids with
  | stop => exact (List.cons.inj hids).1.le
  | next _ ih =>
    obtain ⟨rfl, -⟩ := List.cons.inj hids
    have := ih rfl
    omega

/-! ## Lists in order -/

/-- A part of a list in order is in order. -/
theorem InOrder.sublist {ids ids' : List ℤ} (h : InOrder ids) (hsub : ids'.Sublist ids) :
    InOrder ids' := fun a b c habc => h a b c (habc.trans hsub)

/-- A list with fewer than three ids is in order. -/
theorem inOrder_of_length_lt {ids : List ℤ} (h : ids.length < 3) : InOrder ids :=
  fun a b c habc => by
    have := habc.length_le
    simp at this
    omega

/-- A part of a list with one more element has that element, or is a part of the list. -/
theorem sublist_insert_cases {α : Type*} {s l₁ l₂ : List α} {v : α}
    (h : s.Sublist (l₁ ++ v :: l₂)) :
    s.Sublist (l₁ ++ l₂) ∨ ∃ s₁ s₂, s = s₁ ++ v :: s₂ ∧ s₁.Sublist l₁ ∧ s₂.Sublist l₂ := by
  obtain ⟨s₁, s₂, rfl, h₁, h₂⟩ := List.sublist_append_iff.mp h
  rcases List.sublist_cons_iff.mp h₂ with h₂ | ⟨s₃, rfl, h₃⟩
  · exact .inl (h₁.append h₂)
  · exact .inr ⟨s₁, s₃, rfl, h₁, h₃⟩

/-- A list stays in order when the number behind its last id of a run that goes up is put behind it,
if the ids of the rest are above that number, or below the run. -/
theorem InOrder.insert {run rest : List ℤ} {a e : ℤ} (h : InOrder (run ++ e :: rest))
    (hup : (run ++ [e]).Pairwise (· < ·)) (hrun : ∀ x ∈ run ++ [e], a ≤ x ∧ x ≤ e)
    (hrest : ∀ c ∈ rest, a ≤ c → e + 1 < c) : InOrder (run ++ e :: (e + 1) :: rest) := by
  intro x y z hsub hxz
  rw [List.append_cons] at hsub
  rcases sublist_insert_cases hsub with hsub | ⟨s₁, s₂, hs, h₁, h₂⟩
  · exact h x y z (by simpa using hsub) hxz
  have hae : a ≤ e := (hrun e (by simp)).1
  -- The new id is the first, the second or the third of the three.
  rcases s₁ with _ | ⟨x₁, _ | ⟨x₂, _ | ⟨x₃, s₁⟩⟩⟩
  · -- The first: `e` itself stands in front of the other two.
    obtain ⟨rfl, rfl⟩ : x = e + 1 ∧ [y, z] = s₂ := by simpa using hs
    have hey := h e y z ((h₂.cons_cons e).trans (List.sublist_append_right run _)) (by omega)
    have := hrest y (h₂.subset (by simp)) (by omega)
    omega
  · -- The second: it is above the run, and below what of the rest is above the run.
    obtain ⟨rfl, rfl, rfl⟩ : x = x₁ ∧ y = e + 1 ∧ [z] = s₂ := by simpa using hs
    have hx := hrun x (h₁.subset (by simp))
    have hz := hrest z (h₂.subset (by simp)) (by omega)
    omega
  · -- The third: both others are in the run, which goes up.
    obtain ⟨rfl, rfl, rfl, rfl⟩ : x = x₁ ∧ y = x₂ ∧ z = e + 1 ∧ [] = s₂ := by simpa using hs
    have hy := hrun y (h₁.subset (by simp))
    have hxy := (List.pairwise_cons.mp (hup.sublist h₁)).1 y (by simp)
    omega
  · simp at hs

/-- `getNextID` keeps a list in order. -/
theorem inOrder_takeId {ids : List ℤ} (h : HasNext ids) (hnodup : ids.Nodup) (hord : InOrder ids) :
    InOrder (takeId ids) := by
  have hfree := nextId_not_mem h hord
  match ids with
  | [] => exact inOrder_of_length_lt (by simp [takeId])
  | [a] => exact inOrder_of_length_lt (by simp [takeId])
  | a :: b :: ids =>
    obtain ⟨run, e, rest, hids, -, hnext, htake, hrun, hpair, hall, -⟩ := takeId_eq h
    rw [hnext] at hfree
    rw [htake]
    rw [hids] at hord hnodup hfree
    refine hord.insert (a := a) ?_ ?_ ?_
    · refine List.pairwise_append.mpr ⟨hpair, List.pairwise_singleton _ _, fun x hx e' he' => ?_⟩
      rw [List.mem_singleton.mp he']
      exact (hrun x hx).2
    · intro x hx
      rcases List.mem_append.mp hx with hx | hx
      · exact ⟨(hrun x hx).1, (hrun x hx).2.le⟩
      · rw [List.mem_singleton.mp hx]
        exact ⟨le_of_run hids hrun, le_rfl⟩
    · -- An id of the rest that is not below the first id of the run is above the run.
      intro c hc hac
      obtain ⟨-, hnodup, hdisj⟩ := List.nodup_append.mp hnodup
      have hce : c ≠ e := by
        rintro rfl
        exact (List.nodup_cons.mp hnodup).1 hc
      have hcfree : c ≠ e + 1 := by
        rintro rfl
        exact hfree (by simp [hc])
      by_contra hle
      exact hdisj c (hall c hac (by omega)) c (List.mem_cons_of_mem _ hc) rfl

/-! ## The constructor's insertion -/

/-- The constructor puts an id into a list that does not have it. -/
theorem perm_insertId {ids : List ℤ} {id : ℤ} (hid : id ∉ ids) :
    (insertId ids id).Perm (id :: ids) := by
  match ids with
  | [] => exact .refl _
  | [a] =>
    have hinsert : insertId [a] id = if a < id then [a, id] else [id, a] := if_neg hid
    rw [hinsert]
    split
    · exact .swap _ _ _
    · exact .refl _
  | a :: b :: ids =>
    have hinsert : insertId (a :: b :: ids) id =
        (a :: b :: ids).insertIdx (runEnd (a :: b :: ids)) id := if_neg hid
    rw [hinsert]
    exact List.perm_insertIdx _ _ (runEnd_le a (b :: ids))

/-- An id that the list has changes nothing. -/
theorem insertId_of_mem {ids : List ℤ} {id : ℤ} (h : id ∈ ids) : insertId ids id = ids :=
  if_pos h

/-- The constructor adds one id to a list. -/
theorem mem_insertId {ids : List ℤ} {id x : ℤ} :
    x ∈ insertId ids id ↔ x = id ∨ x ∈ ids := by
  by_cases hid : id ∈ ids
  · rw [insertId_of_mem hid]
    refine ⟨.inr, fun hx => ?_⟩
    rcases hx with rfl | hx
    · exact hid
    · exact hx
  · rw [(perm_insertId hid).mem_iff, List.mem_cons]

/-- The constructor puts no id into a list twice. -/
theorem nodup_insertId {ids : List ℤ} (id : ℤ) (hnodup : ids.Nodup) :
    (insertId ids id).Nodup := by
  by_cases hid : id ∈ ids
  · rwa [insertId_of_mem hid]
  · exact (perm_insertId hid).nodup_iff.mpr (List.nodup_cons.mpr ⟨hid, hnodup⟩)

/-- The list in which the constructor has put ids, one after the other, has them and no more. -/
theorem mem_foldl_insertId {ids new : List ℤ} {x : ℤ} :
    x ∈ new.foldl insertId ids ↔ x ∈ ids ∨ x ∈ new := by
  induction new generalizing ids with
  | nil => simp
  | cons id new ih =>
    rw [List.foldl_cons, ih, mem_insertId, List.mem_cons]
    tauto

/-- It has each of them once. -/
theorem nodup_foldl_insertId {ids : List ℤ} (new : List ℤ) (hnodup : ids.Nodup) :
    (new.foldl insertId ids).Nodup := by
  induction new generalizing ids with
  | nil => exact hnodup
  | cons id new ih => exact ih (nodup_insertId id hnodup)

/-- Ids that the list has change nothing. -/
theorem foldl_insertId_of_subset {ids new : List ℤ} (h : new ⊆ ids) :
    new.foldl insertId ids = ids := by
  induction new with
  | nil => rfl
  | cons id new ih =>
    rw [List.foldl_cons, insertId_of_mem (h (by simp))]
    exact ih fun x hx => h (List.mem_cons_of_mem _ hx)

end CrazyCode.Api
