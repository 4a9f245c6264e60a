import GraphicsBatch.Session
import GraphicsBatch.Stage

/-! # Interfaces

An interface is a host that is asked for by name. Of several names the first that works is taken.
-/

namespace GraphicsBatch.Interface

/-- How an interface looks at first. -/
structure Appearance where
  caption : Value := .text ""
  dimensions : Option (Int × Int) := none
deriving DecidableEq, Inhabited

/-- Opens a host, or gives the reason why it cannot be had. -/
abbrev Opener := World → Appearance → Except (String × World) Stage

def openHeadless : Opener := fun world look =>
  .ok (.headless { panel := { world }, caption := look.caption })

def openWindow : Opener := fun world look =>
  (Window.open world look.caption look.dimensions).map .window

/-- The interfaces by name. -/
def registry : List (String × Opener) := [("none", openHeadless), ("pygame", openWindow)]

def unknownNote (name : String) : Record := ⟨.error, "Unknown interface plugin `" ++ name ++ "`"⟩

def failedNote (name reason : String) : Record :=
  ⟨.info, "Could not initialise interface plugin `" ++ name ++ "`: " ++ reason⟩

def usingNote (name : String) : Record := ⟨.debug, "Using interface plugin `" ++ name ++ "`"⟩

def noneWorks : String := "Failed to initialise any interface plugin."

/-- Opens the first interface that works. If none does, what was tried has left its traces in the
world. -/
def openFirst (look : Appearance) : List String → World → Except World Stage
  | [], world => .error world
  | name :: rest, world =>
    match registry.lookup name with
    | none => openFirst look rest (world.note (unknownNote name))
    | some «open» =>
      match «open» world look with
      | .ok stage => .ok (stage.note (usingNote name))
      | .error (reason, world) => openFirst look rest (world.note (failedNote name reason))

end GraphicsBatch.Interface
