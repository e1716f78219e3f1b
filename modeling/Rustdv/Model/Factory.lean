import Rustdv.Model.Component

/-! # Overrides in the configuration database

An override is a value in the configuration database, under a field that is made from the name of the
component it replaces: a type override under the pattern `*`, an instance override under a path relative
to the context of its setter.
-/

namespace Rustdv.Component

variable {κ V : Type*}

/-- The slot of `new_comp`. -/
def newComp (field : String) : Slot := ⟨field, .rustdvComp false none⟩

/-- The slot of `create_comp`. -/
def createComp (field requested : String) : Slot := ⟨field, .rustdvComp true (some requested)⟩

/-- `store_override`. -/
def storeOverride (ctx : Option String) (offset requested target : String) (make : Maker κ) :
    Config.Call (Value κ V) :=
  .set ctx offset (overrideKey requested) ⟨.override make target, overrideTypeName, overrideTypeId, s!"-> {target}"⟩

/-- What is called on the database while a test runs: overrides are installed, and other fields are set. -/
inductive Install (κ V : Type*) where
  /-- By type, or by a registered name. -/
  | setTypeOverride (requested target : String) (make : Maker κ)
  | setInstOverride (ctx path requested target : String) (make : Maker κ)
  | set (ctx : Option String) (offset field : String) (entry : Config.Entry (Value κ V))
      (plain : ∀ requested, field ≠ overrideKey requested)
  | setTracing (on : Bool)
  | setInBuild (active : Bool)
  | clear

/-- The call that it makes. -/
def Install.call : Install κ V → Config.Call (Value κ V)
  | .setTypeOverride requested target make => storeOverride none "*" requested target make
  | .setInstOverride ctx path requested target make => storeOverride (some ctx) path requested target make
  | .set ctx offset field entry _ => .set ctx offset field entry
  | .setTracing on => .setTracing on
  | .setInBuild active => .setInBuild active
  | .clear => .clear

/-- The name that it overrides. -/
def Install.overridden : Install κ V → Option String
  | .setTypeOverride requested _ _ => some requested
  | .setInstOverride _ _ requested _ _ => some requested
  | _ => none

/-- The database after what was installed. -/
def installed (history : List (Install κ V)) : Config.ConfigDb (Value κ V) :=
  Config.after (history.map Install.call)

end Rustdv.Component
