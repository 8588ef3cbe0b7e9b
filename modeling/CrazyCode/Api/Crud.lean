import CrazyCode.Api.Handler
import Mathlib.Data.Set.Insert

/-!
# What the API is for

`Crud` is the purpose of the API, without files and without an index: entities, and bytes that are
stored by an entity and an id. `Crud.Step` says how each request is to be answered, and what it does
to the store. A POST may pick any id that is free. An item is asked for by the numeral of its id,
and by no other name.
-/

namespace CrazyCode.Api

open Text Decimal Posix Profile Server

/-- What a request is for: an entity, or an item of it. -/
inductive Target where
  | entity (entity : Str)
  | item (entity name : Str)
deriving DecidableEq

/-- The target of a request line. -/
def Target.text : Target → Str
  | .entity dir => "/api/".toList ++ dir
  | .item dir name => "/api/".toList ++ (dir ++ '/' :: name)

/-- The entity has a plain name, and the name of the item has no slash and no zero byte, and is not
`.` or `..`. -/
def Target.Plain : Target → Prop
  | .entity dir => PlainName dir
  | .item dir name =>
    PlainName dir ∧ '/' ∉ name ∧ nul ∉ name ∧ name ≠ ['.'] ∧ name ≠ ['.', '.']

/-- A request for an entity or an item, the profile that its handler gets, and the order in which
the system lists the entries below the root to the handler's constructor. -/
structure Call where
  listing : List (List Str)
  profile : UserProfile
  method : Verb
  target : Target
  body : Str

/-- The entities that there are, and the bytes that are stored. -/
structure Crud where
  entities : Set Str
  items : Str → ℤ → Option Str

namespace Crud

/-- Nothing is stored. -/
def empty : Crud := ⟨∅, fun _ _ => none⟩

/-- An entity is there. -/
def add (a : Crud) (entity : Str) : Crud := ⟨insert entity a.entities, a.items⟩

/-- One item is replaced, or removed. -/
def set (a : Crud) (entity : Str) (id : ℤ) (v : Option Str) : Crud where
  entities := a.entities
  items entity' id' := if entity' = entity ∧ id' = id then v else a.items entity' id'

/-- The name is the numeral of an id that is stored, with these bytes. -/
def Present (a : Crud) (entity name : Str) (id : ℤ) (content : Str) : Prop :=
  name = decimal id ∧ a.items entity id = some content

/-- The name is not the numeral of an id that is stored. -/
def Absent (a : Crud) (entity name : Str) : Prop := ∀ id content, ¬ a.Present entity name id content

/-- The answer to a call, and the store behind it. -/
def Step (root : Str) (a : Crud) (c : Call) (res : Response) (a' : Crud) : Prop :=
  match c.method, c.target with
  | .post, .entity entity =>
    -- Any id that is free may be picked.
    (c.profile.loginStatus = true ∧ ∃ id, 1 ≤ id ∧ a.items entity id = none ∧
      res = created (root ++ '/' :: entity) id ∧ a' = (a.add entity).set entity id (some c.body)) ∨
    (c.profile.loginStatus = false ∧ res = badRequest ∧ a' = a)
  | .get, .item entity name =>
    (∃ id content, a.Present entity name id content ∧ res = html 200 content ∧ a' = a) ∨
    (a.Absent entity name ∧ res = badRequest ∧ a' = a)
  | .get, .entity entity =>
    -- The ids are listed in some order, each of them once.
    (entity ∈ a.entities ∧ ∃ ids : List ℤ, ids.Nodup ∧
      (∀ id, id ∈ ids ↔ a.items entity id ≠ none) ∧ res = html 200 (idsPage ids) ∧ a' = a) ∨
    (entity ∉ a.entities ∧ res = badRequest ∧ a' = a)
  | .put, .item entity name =>
    (c.profile.loginStatus = true ∧ ∃ id content, a.Present entity name id content ∧
      res = html 200 c.body ∧ a' = a.set entity id (some c.body)) ∨
    ((c.profile.loginStatus = false ∨ a.Absent entity name) ∧ res = badRequest ∧ a' = a)
  | .delete, .item entity name =>
    (c.profile.loginStatus = true ∧ ∃ id content, a.Present entity name id content ∧
      res = deleted ∧ a' = a.set entity id none) ∨
    ((c.profile.loginStatus = false ∨ a.Absent entity name) ∧ res = badRequest ∧ a' = a)
  | _, _ => res = badRequest ∧ a' = a

end Crud

end CrazyCode.Api
