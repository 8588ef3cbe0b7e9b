import CrazyCode.Api.Lists
import Mathlib.Order.Bounds.Basic

/-!
# The lowest id available

`getNextID` is documented to find the lowest id that is available. Of a list of two ids or more it
looks at the first run only, and picks the id behind it. That is the lowest one exactly if every id
below the first one of the list is in the list, and the id behind the run is not (`StartsLow`,
`getNextID_lowest_iff`). This holds of all lists of positive ids, whatever requests have made them;
those of a run that keeps a store are positive (`lowest_of_run_iff`). A list from which id 1 was
removed, or that was made of files 2 and 3, does not start low: the ids that are picked for it go
up, and 1 stays free (`not_lowest`).
-/

namespace CrazyCode.Api

open Text Decimal Posix Profile Server

/-- `getNextID` returns the least positive integer that is not in the list of the entity, and the
list becomes the old one with that id added. -/
def Lowest (pathCounts : PathCounts) (entity : Str) : Prop :=
  let ids := (pathCounts entity).getD []
  let (id, pathCounts') := getNextID pathCounts entity
  IsLeast {n : ℤ | 1 ≤ n ∧ n ∉ ids} id ∧ ((pathCounts' entity).getD []).Perm (id :: ids)

/-- The first run of a list has no free id below it, and a free id behind it. -/
structure StartsLow (ids : List ℤ) : Prop where
  below : ∀ a ∈ ids.head?, ∀ n, 1 ≤ n → n < a → n ∈ ids
  behind : ∀ e, FirstRun ids e → e < intMax ∧ e + 1 ∉ ids

/-- What `getNextID` returns and leaves, for a list of ids. -/
theorem lowest_def (pathCounts : PathCounts) (entity : Str) :
    Lowest pathCounts entity ↔
      IsLeast {n : ℤ | 1 ≤ n ∧ n ∉ (pathCounts entity).getD []}
          (nextId ((pathCounts entity).getD [])) ∧
        (takeId ((pathCounts entity).getD [])).Perm
          (nextId ((pathCounts entity).getD []) :: (pathCounts entity).getD []) := by
  simp [Lowest, getNextID]

/-- A list that starts low has a next id. -/
theorem StartsLow.hasNext {ids : List ℤ} (h : StartsLow ids) (hpos : Positive ids) : HasNext ids :=
  ⟨hpos, fun _ e he => (h.behind e he).1⟩

/-- Of a list with fewer than two ids the lowest free one is picked. -/
theorem isLeast_nextId_of_length {ids : List ℤ} (h : ids.length < 2) :
    IsLeast {n : ℤ | 1 ≤ n ∧ n ∉ ids} (nextId ids) := by
  match ids with
  | [] => exact ⟨⟨le_rfl, List.not_mem_nil⟩, fun n hn => hn.1⟩
  | [a] =>
    show IsLeast {n : ℤ | 1 ≤ n ∧ n ∉ [a]} (if a = 1 then 2 else 1)
    split
    · next ha =>
      refine ⟨⟨by decide, by simp [ha]⟩, ?_⟩
      rintro n ⟨hn, hfree⟩
      rw [ha, List.mem_singleton] at hfree
      omega
    · next ha => exact ⟨⟨le_rfl, by simpa using Ne.symm ha⟩, fun n hn => hn.1⟩

/-- Of a longer list the lowest free one is picked exactly if the list starts low. -/
theorem isLeast_nextId_iff {a b : ℤ} {ids : List ℤ} (hpos : Positive (a :: b :: ids)) :
    IsLeast {n : ℤ | 1 ≤ n ∧ n ∉ a :: b :: ids} (nextId (a :: b :: ids)) ↔
      StartsLow (a :: b :: ids) := by
  constructor
  · intro hleast
    obtain ⟨e, he⟩ := exists_firstRun a (b :: ids)
    obtain ⟨hnext, run, rest, hids, -, hrun, -⟩ := he.takeId hpos
    have hae : a ≤ e := le_of_run hids hrun
    have hrange := hpos e he.mem
    rw [hnext] at hleast
    have hlt : e < intMax := by
      -- Otherwise the sum wraps around to a negative one.
      refine hrange.2.lt_of_ne fun heq => ?_
      have hone := hleast.1.1
      rw [heq, wrap_intMax_succ] at hone
      exact absurd hone (by decide)
    rw [wrap_succ ⟨hrange.1, hlt⟩] at hleast
    refine ⟨fun a' ha' n hn hna => ?_, fun e' he' => ?_⟩
    · obtain rfl := Option.some.inj ha'
      by_contra hfree
      have := hleast.2 ⟨hn, hfree⟩
      omega
    · rw [he'.unique he]
      exact ⟨hlt, hleast.1.2⟩
  · intro hlow
    obtain ⟨run, e, rest, hids, hrange, hnext, -, -, -, hall, -⟩ := takeId_eq (hlow.hasNext hpos)
    obtain ⟨e', he'⟩ := exists_firstRun a (b :: ids)
    have hee : e' = e := by
      have hwrap := (he'.takeId hpos).1
      rw [wrap_succ ⟨(hpos e' he'.mem).1, (hlow.behind e' he').1⟩, hnext] at hwrap
      omega
    subst hee
    rw [hnext]
    refine ⟨⟨by omega, (hlow.behind e' he').2⟩, ?_⟩
    rintro n ⟨hn, hfree⟩
    by_contra hlt
    -- What is not above the run is below its first id, in it, or its last id.
    rcases lt_or_ge n a with hna | han
    · exact hfree (hlow.below a rfl n hn hna)
    · rcases (show n < e' ∨ n = e' by omega) with hne | rfl
      · rw [hids] at hfree
        exact hfree (List.mem_append_left _ (hall n han hne))
      · exact hfree he'.mem

/-- A list of positive ids gets its lowest free id exactly if it has fewer than two ids, or starts
low. -/
theorem isLeast_takeId_iff {ids : List ℤ} (hpos : Positive ids) :
    IsLeast {n : ℤ | 1 ≤ n ∧ n ∉ ids} (nextId ids) ∧ (takeId ids).Perm (nextId ids :: ids) ↔
      ids.length < 2 ∨ StartsLow ids := by
  by_cases hlen : ids.length < 2
  · exact iff_of_true ⟨isLeast_nextId_of_length hlen, perm_takeId _⟩ (.inl hlen)
  · obtain ⟨a, b, ids, rfl⟩ : ∃ a b rest, ids = a :: b :: rest := by
      match ids with
      | [] => simp at hlen
      | [_] => simp at hlen
      | a :: b :: rest => exact ⟨a, b, rest, rfl⟩
    rw [isLeast_nextId_iff hpos]
    constructor
    · exact fun h => .inr h.1
    · intro h
      have hlow := h.resolve_left hlen
      exact ⟨hlow, perm_takeId _⟩

/-- For every list of positive ids, `getNextID` returns the lowest free id exactly if the list has
fewer than two ids, or starts low. -/
theorem getNextID_lowest_iff (pathCounts : PathCounts) (entity : Str)
    (hpos : Positive ((pathCounts entity).getD [])) :
    Lowest pathCounts entity ↔
      ((pathCounts entity).getD []).length < 2 ∨ StartsLow ((pathCounts entity).getD []) := by
  rw [lowest_def]
  exact isLeast_takeId_iff hpos

/-- Files 1 and 3, and a POST: the lowest free id is 4. -/
theorem getNextID_lowest_post : Lowest (postResult [1, 3]).2.pathCounts ['E'] := by
  have hids : ((postResult [1, 3]).2.pathCounts ['E']).getD [] = [1, 2, 3] := by decide +kernel
  have hpos : Positive (((postResult [1, 3]).2.pathCounts ['E']).getD []) := by
    rw [hids]
    exact InRange.positive (by decide)
  refine (getNextID_lowest_iff _ ['E'] hpos).mpr (.inr ?_)
  rw [hids]
  refine ⟨fun a ha n h₁ h₂ => ?_, fun e he => ?_⟩
  · obtain rfl := Option.some.inj ha
    omega
  · have hfirst : FirstRun [1, 2, 3] 3 := .next (.next (.stop (by simp)))
    rw [he.unique hfirst]
    decide

/-- Behind every run of requests to a store, with an empty index at the start, the lists have
positive ids, so that `getNextID` returns the lowest free id for an entity exactly if its list has
fewer than two ids, or starts low. -/
theorem lowest_of_run_iff {root : Str} {top : Location} {st s : State}
    (hroot : st.fs.resolve root = some top) (hstore : Store top st.fs)
    (hempty : ∀ entity, st.pathCounts entity = none) {tr : List (Input × Response)}
    (hrun : Run (CountedStep root top) st tr s) (entity : Str) :
    Lowest s.pathCounts entity ↔ (s.ids entity).length < 2 ∨ StartsLow (s.ids entity) := by
  rw [lowest_def]
  exact isLeast_takeId_iff ((counted_of_run hroot hstore hempty hrun).positive entity)

/-- Files 2 and 3: after a POST, which picks 4, the next one would pick 5, and 1 is free. -/
theorem not_lowest : ¬ ∀ (root : Str) (top : Location) (st : State),
    st.fs.resolve root = some top → Store top st.fs → (∀ entity, st.pathCounts entity = none) →
    ∀ (tr : List (Input × Response)) (s : State) (entity : Str), Run (Step root top) st tr s →
      (s.ids entity).Nodup → InRange (s.ids entity) → Lowest s.pathCounts entity := fun h => by
  have hrange : InRange [2, 3] := by decide
  have hids : (postResult [2, 3]).2.ids ['E'] = [2, 3, 4] := by decide +kernel
  have hlow := h _ _ _ (resolve_storedIds _) (store_storedIds hrange) (fun _ => rfl) _ _ ['E']
    (Run.nil.snoc (step_storedIds hrange (by decide))) (by rw [hids]; decide) (by rw [hids]; decide)
  have hleast : IsLeast {n : ℤ | 1 ≤ n ∧ n ∉ (postResult [2, 3]).2.ids ['E']}
      (nextId ((postResult [2, 3]).2.ids ['E'])) := ((lowest_def _ _).mp hlow).1
  rw [hids] at hleast
  exact absurd (hleast.2 (show 1 ∈ {n : ℤ | 1 ≤ n ∧ n ∉ [2, 3, 4]} by simp)) (by decide)

end CrazyCode.Api
