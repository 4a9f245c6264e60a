import GraphicsBatch.Host.Panel

/-! # The host without a window

It logs commands instead of carrying them out, and lets timed waits run out.
-/

namespace GraphicsBatch

structure Headless where
  panel : Panel
  caption : Value := .text ""
deriving Inhabited

namespace Headless

def note (h : Headless) (r : Record) : Headless := { h with panel := h.panel.note r }

def carryOut (i : Instruction) (h : Headless) : Except Failure Datum × Headless :=
  match i with
  | .messageBox type default _ text caption =>
    match messageBoxChoice type default with
    | .error f => (.error f, h)
    | .ok (_, n) =>
      (.ok (.int n), h.note ⟨.info,
        "Message box `" ++ caption.plainText ++ "`: " ++ text.plainText ++ "; answered " ++
          toString n⟩)
  | .run command =>
    (.ok .none, h.note ⟨.info, "Not running `" ++ command.plainText ++ "` in headless mode"⟩)
  | .caption text => (.ok .none, { h with caption := text })
  | _ =>
    let (result, panel) := h.panel.carryOut i
    (result, { h with panel })

/-- Logs a command and carries it out. -/
def forward (name : String) (args : List Value) (h : Headless) : Except Failure Datum × Headless :=
  match Value.allWritten args with
  | .error f => (.error f, h)
  | .ok texts =>
    let h := h.note ⟨.info, name ++ "(" ++ String.intercalate "," texts ++ ")"⟩
    match Panel.instructionOf name args with
    | none => (.ok .none, h.note (Panel.unsupported name))
    | some (.error f) => (.error f, h)
    | some (.ok i) => h.carryOut i

def call (r : Request) (h : Headless) : Except Signal Datum × Headless :=
  match r with
  | .forward c args =>
    let (result, h') := h.forward c.name args
    (result.mapError .failure, h')
  | _ =>
    let (result, panel) := h.panel.call r
    (result, { h with panel })

def host : Host Headless where
  call
  note r h := h.note r

/-- Lets a timed wait run out, if the platform sleeps that long; a wait without a limit is the end. -/
def waitEvent (h : Headless) : Except Failure Event × Headless :=
  match h.panel.remaining with
  | .error f => (.error (.number f), h)
  | .ok none =>
    (.ok { kind := .quit }, h.note ⟨.info, "Waiting for input without a timeout; stopping"⟩)
  | .ok (some ms) =>
    match Binary64.ofInt ms with
    | .error f => (.error (.number f), h)
    | .ok ms =>
      if h.panel.world.refusesSleep ms then (.error .sleepTooLong, h)
      else (.ok { kind := .timeout }, { h with panel := h.panel.mapWorld (·.sleep ms) })

end Headless

end GraphicsBatch
