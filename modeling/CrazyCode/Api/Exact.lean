import CrazyCode.Api.Runs

/-!
# What a scan indexes

A scan is to index the items below the root: the files that are named by the numeral of an `int`,
each under the name of its directory. The constructor does more. It looks at the last byte of a name
only, and at what `stoi` reads off the stem, so a file `a1` makes it throw, a file `01` or `1.5` is
indexed under an id that is the name of another file, and a file of the root itself gets the name of
the root for its entity. It indexes exactly the items if every file whose name ends with a digit is
one, or has the id of one under its entity (`indexesExactly_iff`).
-/

namespace CrazyCode.Api

open Text Decimal Posix Outcome Profile Server

/-- A directory of this name below the root has a file that is named by the numeral of the `int`. -/
def HasItem (fs : FileSystem) (top : Location) (entity : Str) (id : ℤ) : Prop :=
  (intMin ≤ id ∧ id ≤ intMax) ∧
    ∃ parents content, fs.node (top ++ (parents ++ [entity, decimal id])) = some (.file content)

/-- The constructor does not throw on an empty index, and indexes exactly the items. -/
def IndexesExactly (fs : FileSystem) (root : Str) (top : Location) (listing : List (List Str)) :
    Prop :=
  ∃ pathCounts, construct root listing ⟨fs, fun _ => none⟩ = .ok pathCounts ∧
    ∀ entity id, id ∈ (pathCounts entity).getD [] ↔ HasItem fs top entity id

/-- Every file whose name ends with a digit has the id of an item of its entity: `stoi` reads the id
off the stem of its name, and the entity is the name in front of its own in its absolute path. -/
def OnlyItems (fs : FileSystem) (root : Str) (top : Location) : Prop :=
  ∀ parents name content, fs.node (top ++ (parents ++ [name])) = some (.file content) →
    endsWithDigit name = true →
    ∃ id, stoi (stem name) = .ok id ∧ HasItem fs top (entityName fs root (parents ++ [name])) id

section

variable {fs : FileSystem} {root : Str} {top : Location} {listing : List (List Str)}

/-- An item is read with its id. -/
theorem HasItem.exists_readId {entity : Str} {id : ℤ} (h : HasItem fs top entity id) (root : Str) :
    ∃ names, fs.node (top ++ names) ≠ none ∧ names ≠ [] ∧ readId fs top names = some (.ok id) ∧
      entityName fs root names = entity := by
  obtain ⟨⟨hmin, hmax⟩, parents, content, hnode⟩ := h
  have hsplit : parents ++ [entity, decimal id] = (parents ++ [entity]) ++ [decimal id] := by simp
  have hne : fs.node (top ++ (parents ++ [entity, decimal id])) ≠ none := by
    rw [hnode]
    simp
  refine ⟨parents ++ [entity, decimal id], hne, by simp, ?_, entityName_append hne⟩
  rw [hsplit] at hnode ⊢
  rw [readId_file hnode, if_pos (endsWithDigit_decimal id), stem_decimal, stoi_decimal hmin hmax]

/-- The constructor indexes exactly the items below the root, without an exception, if and only if
every file whose name ends with a digit has the id of an item of its entity. -/
theorem indexesExactly_iff (hroot : fs.resolve root = some top)
    (hdir : fs.node top = some .directory) (hlisting : IsListing fs top listing) :
    IndexesExactly fs root top listing ↔ OnlyItems fs root top := by
  have hok := fun pathCounts => @construct_eq_ok_iff root top ⟨fs, fun _ => none⟩ hroot hdir listing
    pathCounts
  have hmem : ∀ entity id,
      id ∈ (filled (scannedIds fs root top listing) (fun _ => none) entity).getD [] ↔
      ∃ names ∈ listing, readId fs top names = some (.ok id) ∧
        entityName fs root names = entity := by
    intro entity id
    rw [mem_filled, mem_scannedIds]
    simp
  constructor
  · -- What the constructor reads off a file is an item, since its index is exact.
    rintro ⟨pathCounts, hconstruct, hexact⟩ parents name content hnode hdigit
    obtain ⟨hreads, rfl⟩ := (hok pathCounts).mp hconstruct
    have hlisted : parents ++ [name] ∈ listing :=
      (hlisting.2 _).mpr ⟨by simp, by rw [hnode]; simp⟩
    have hread : readId fs top (parents ++ [name]) = some (stoi (stem name)) :=
      (readId_file hnode).trans (if_pos hdigit)
    cases hstoi : stoi (stem name) with
    | error error => exact absurd (hread.trans (congrArg some hstoi)) (hreads _ hlisted error)
    | ok id =>
      rw [hstoi] at hread
      exact ⟨id, rfl, (hexact _ id).mp ((hmem _ id).mpr ⟨_, hlisted, hread, rfl⟩)⟩
  · -- Every file that is read has the id of an item, so nothing throws and nothing else is indexed.
    intro honly
    refine ⟨_, (hok _).mpr ⟨fun names _ error hread => ?_, rfl⟩, fun entity id => ?_⟩
    · obtain ⟨parents, name, content, rfl, hnode, hdigit, hstoi⟩ := readId_eq_some.mp hread
      obtain ⟨id, hid, -⟩ := honly parents name content hnode hdigit
      rw [hid] at hstoi
      cases hstoi
    · rw [hmem]
      constructor
      · rintro ⟨names, -, hread, rfl⟩
        obtain ⟨parents, name, content, rfl, hnode, hdigit, hstoi⟩ := readId_eq_some.mp hread
        obtain ⟨id', hid', hitem⟩ := honly parents name content hnode hdigit
        obtain rfl := Except.ok.inj (hstoi.symm.trans hid')
        exact hitem
      · intro hitem
        obtain ⟨names, hnode, hne, hread, hentity⟩ := hitem.exists_readId root
        exact ⟨names, (hlisting.2 names).mpr ⟨hne, hnode⟩, hread, hentity⟩

end

/-- A file that is named by a numeral, and one whose name does not end with a digit. -/
theorem indexesExactly_one :
    IndexesExactly (storedNames [['1'], ['a']]).fs "/r".toList [['r']]
      (listingOfNames [['1'], ['a']]) ↔
      OnlyItems (storedNames [['1'], ['a']]).fs "/r".toList [['r']] :=
  indexesExactly_iff (resolve_storedNames _) (by decide +kernel)
    (isListing_storedNames (by decide) (by decide))

/-- A file `a1` makes the constructor throw. -/
theorem not_indexesExactly : ¬ ∀ (fs : FileSystem) (root : Str) (top : Location)
    (listing : List (List Str)), fs.resolve root = some top → fs.node top = some .directory →
    IsListing fs top listing → IndexesExactly fs root top listing := by
  intro h
  obtain ⟨pathCounts, hconstruct, -⟩ := h (storedNames [['a', '1']]).fs "/r".toList [['r']]
    (listingOfNames [['a', '1']]) (resolve_storedNames _) (by decide +kernel)
    (isListing_storedNames (by decide) (by decide))
  have hok := @construct_eq_ok_iff "/r".toList [['r']] (storedNames [['a', '1']])
    (resolve_storedNames _) (by decide +kernel) (listingOfNames [['a', '1']]) pathCounts
  exact (hok.mp hconstruct).1 [['E'], ['a', '1']] (by simp [listingOfNames]) .invalidArgument
    (by decide +kernel)

end CrazyCode.Api
