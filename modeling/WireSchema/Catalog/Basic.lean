/-
# Catalogs

A catalog turns type definitions into nodes.  It has the definitions that types
may refer to by name, the providers that decide which types it can describe, and
the store with the nodes that it has built.
-/

import WireSchema.Store.Basic

namespace WireSchema

/-- A store of nodes with the definitions and providers they are built from. -/
structure Catalog where
  providers : List Provider
  definitions : List Definition
  store : Store
  /-- The records and unions under construction, the latest first. -/
  opened : List TypeDef
  /-- The slots reserved for types under construction. -/
  reserved : Table TypeDef Handle

namespace Catalog

/-- A catalog without definitions and nodes. -/
def withProviders (providers : List Provider) : Catalog :=
  ⟨providers, [], Store.empty, [], .empty⟩

/-- The definition that is registered under a name. -/
def definition? (catalog : Catalog) (name : String) : Option Definition :=
  catalog.definitions.find? fun definition => definition.name = name

/-- Register a type under its own name.  A name can be given to one type only;
registering that type again changes nothing. -/
def register (type : TypeDef) : EStateM Error Catalog Unit := fun catalog =>
  match type.toDefinition? with
  | none => .error (.invalidType (.nameless type)) catalog
  | some definition =>
    match catalog.definition? definition.name with
    | none => .ok () { catalog with definitions := catalog.definitions ++ [definition] }
    | some existing =>
      if existing.type = type then .ok () catalog
      else .error (.invalidType (.nameTaken definition.name)) catalog

/-- Run an operation of the store on the store of a catalog. -/
def onStore {α : Type} (operation : EStateM Error Store α) : EStateM Error Catalog α :=
  fun catalog =>
    match operation catalog.store with
    | .ok result store => .ok result { catalog with store }
    | .error error store => .error error { catalog with store }

end Catalog

end WireSchema
