import GraphicsBatch.Frontend
import GraphicsBatch.Host.Headless
import GraphicsBatch.Host.Scripted
import GraphicsBatch.Window.Host

/-! # Stages

A stage is a host of any kind together with the world it acts on.
-/

namespace GraphicsBatch

/-! ## Frontends -/

def Panel.frontend : Frontend Panel where
  toHost := Panel.host
  waitEvent p :=
    let (e, p) := p.waitEvent
    (.ok (some e), p)
  close := Panel.reap

def Headless.frontend : Frontend Headless where
  toHost := Headless.host
  waitEvent h :=
    let (e, h) := h.waitEvent
    (e.map some, h)
  close h := { h with panel := h.panel.reap }

def Window.frontend : Frontend Window where
  toHost := Window.host
  waitEvent w := Window.waitEvent.run.run w
  close := Window.close

/-! ## The choice of a host -/

inductive Stage where
  /-- No host: what is asked has no effect. -/
  | empty (w : World)
  | scripted (s : Scripted)
  | panel (p : Panel)
  | headless (h : Headless)
  | window (w : Window)
deriving Inhabited

namespace Stage

def world : Stage → World
  | empty w => w
  | scripted s => s.world
  | panel p => p.world
  | headless h => h.panel.world
  | window w => w.panel.world

def setWorld (world : World) : Stage → Stage
  | empty _ => .empty world
  | scripted s => .scripted { s with world }
  | panel p => .panel { p with world }
  | headless h => .headless { h with panel := { h.panel with world } }
  | window w => .window { w with panel := { w.panel with world } }

/-- The bindings, the wait and the children that a host keeps, if it keeps any. -/
def panel? : Stage → Option Panel
  | panel p => some p
  | headless h => some h.panel
  | window w => some w.panel
  | _ => none

def caption? : Stage → Option Value
  | headless h => some h.caption
  | window w => some w.caption
  | _ => none

def note (r : Record) (s : Stage) : Stage := s.setWorld (s.world.note r)

/-- Acts on the state of one kind of host. -/
def lift {α σ : Type} (into : σ → Stage) (result : α × σ) : α × Stage := (result.1, into result.2)

def call (r : Request) : Stage → Except Signal Datum × Stage
  | empty w => (.ok .none, .empty w)
  | scripted s => lift .scripted (s.call r)
  | panel p => lift .panel (p.call r)
  | headless h => lift .headless (h.call r)
  | window w => lift .window (w.call r)

/-- Carries out the command of a name, as the host itself would. -/
def forward (name : String) (args : List Value) : Stage → Except Failure Datum × Stage
  | panel p => lift .panel (p.forward name args)
  | headless h => lift .headless (h.forward name args)
  | window w => lift .window ((Window.forward name args).run.run w)
  | s => (.ok .none, s)

/-- A host without input is closed by its user at the first wait. -/
def waitEvent : Stage → Except Failure (Option Event) × Stage
  | panel p => lift .panel (Panel.frontend.waitEvent p)
  | headless h => lift .headless (Headless.frontend.waitEvent h)
  | window w => lift .window (Window.frontend.waitEvent w)
  | s => (.ok (some { kind := .quit }), s)

def close : Stage → Stage
  | panel p => .panel (Panel.frontend.close p)
  | headless h => .headless (Headless.frontend.close h)
  | window w => .window (Window.frontend.close w)
  | s => s

def frontend : Frontend Stage where
  call
  note
  waitEvent
  close

def host : Host Stage := frontend.toHost

end Stage

end GraphicsBatch
