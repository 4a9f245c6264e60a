import GraphicsBatch.Window.MenuBar

/-! # Message boxes in the window -/

namespace GraphicsBatch.Window

def dialogTextHeight : Int := 20
def dialogPadding : Int := 16
def buttonWidth : Int := 80
def buttonHeight : Int := 26

/-- The mark in front of the text for each icon. -/
def iconMarks : List (String × String) :=
  [("INFORMATION", "i"), ("EXCLAMATION", "!"), ("QUESTION", "?"), ("STOP", "X"), ("NOICON", "")]

/-- Key codes that dismiss a message box: Return, Enter, space and Escape. -/
def dismissKeys : List Int := [13, 1073741912, 32, 27]

/-! ## Layout -/

structure DialogLayout where
  frame : Rect
  title : Rect
  buttons : List Rect
deriving DecidableEq, Inhabited

/-- Width of a row of buttons. -/
def buttonsWidth (count : Nat) : Int := count * (buttonWidth + dialogPadding) - dialogPadding

/-- A message box in the middle of a window. -/
def dialogLayout (window : Rect) (f : Font) (message caption : Value) (count : Nat) :
    DialogLayout :=
  let line := f.lineHeight
  let row := buttonsWidth count
  let width := max (max ↑(f.widthOf message) ↑(f.widthOf caption)) row + 2 * dialogPadding
  let height := line + 3 * dialogPadding + line + buttonHeight
  let frame := Rect.around window.centre width height
  let first := frame.centre.x - row / 2
  let top := frame.bottom - dialogPadding - buttonHeight
  { frame
    title := ⟨frame.left, frame.top, width, line + 4⟩
    buttons := (List.range count).map fun (i : Nat) =>
      ⟨first + i * (buttonWidth + dialogPadding), top, buttonWidth, buttonHeight⟩ }

/-! ## Answers -/

/-- The number of the button that holds a point. -/
def buttonAt (buttons : List Rect) (p : Pixel) : Option Int :=
  (buttons.zipIdx.filter fun (r, _) => r.contains p).getLast?.map fun (_, i) => (i : Int) + 1

/-- The number of the button that is clicked on. -/
def clickedButton (buttons : List Rect) (p : Pixel) : Except Failure (Option Int) :=
  match p.stored? with
  | some p => .ok (buttonAt buttons p)
  | none => .error notAPlace

/-- The answer that an event gives to a message box. -/
def dialogAnswer (buttons : List Rect) (chosen : Int) : DisplayEvent → Except Failure (Option Int)
  | .quit => .ok (some chosen)
  | .click p button => if button = 1 then clickedButton buttons p else .ok none
  | .key code _ _ => .ok (if dismissKeys.contains code then some chosen else none)
  | _ => .ok none

/-! ## Events -/

/-- Takes the next event. If there is none, a wait with a limit lets the time pass, and one without
finds the window closed. -/
def nextEvent (timeout : Int) : Draw DisplayEvent := do
  emit (.wait timeout)
  match (← get).display.takeEvent with
  | (some e, d) =>
    modify (mapDisplay fun _ => d)
    return e
  | (none, _) =>
    if timeout = 0 then return .quit
    let ms ← inRange (Binary64.ofInt timeout)
    modify (mapWorld (·.sleep ms))
    return .other

/-- Puts an event back for the wait that follows. -/
def postEvent (e : DisplayEvent) : Draw Unit := do
  emit .post
  modify (mapDisplay fun d => { d with posted := d.posted ++ [e] })

/-- Waits for an event that answers a message box. Closing the window does, and the event is kept. -/
def awaitAnswer (buttons : List Rect) (chosen : Int) : (fuel : Nat) → Draw Int
  | 0 => return chosen
  | fuel + 1 => do
    let e ← nextEvent 0
    if e = .quit then postEvent e
    match ← dialogAnswer buttons chosen e with
    | some n => return n
    | none => awaitAnswer buttons chosen fuel

/-! ## The box -/

def drawDialog (f : Font) (layout : DialogLayout) (labels : List String) (message caption : Value)
    (chosen : Int) : Draw Unit := do
  let frame := layout.frame
  let title := layout.title
  emit (.rect 0 face frame 0)
  emit (.rect 0 shadow frame 1)
  emit (.rect 0 titleBlue title 0)
  let s ← render f caption .white none
  emit (.blit 0 s.id (.pixel ⟨title.left + 4, title.top + 2⟩) false)
  let s ← render f message .black none
  emit (.blit 0 s.id (.pixel ⟨frame.left + dialogPadding, title.bottom + dialogPadding⟩) false)
  (labels.zip layout.buttons).zipIdx.forM fun ((label, rect), i) => do
    emit (.rect 0 .white rect 0)
    emit (.rect 0 .black rect (if (i : Int) + 1 = chosen then 2 else 1))
    let s ← render f (.text label) .black none
    let place := Rect.around rect.centre s.width s.height
    emit (.blit 0 s.id (.pixel ⟨place.left, place.top⟩) false)
  emit .flip

/-- The text of a message box with the mark of its icon. -/
def messageOf (mark : String) (text : Value) : Value :=
  if mark = "" then text else .text (mark ++ "  " ++ text.plainText)

/-- The window on the screen as a rectangle. -/
def frameRect (w : Window) : Except Failure Rect :=
  match stored? w.frame.1, stored? w.frame.2 with
  | some width, some height => .ok ⟨0, 0, width, height⟩
  | _, _ => .error (.badArguments "Argument must be rect style object")

/-- Waits for the answer to a message box that is shown, and takes the box off the screen. -/
def settleDialog (buttons : List Rect) (chosen : Int) : Draw Int := do
  let n ← awaitAnswer buttons chosen ((← get).display.pending + 1)
  refresh
  return n

/-- Shows a message box and waits for its answer. -/
def messageBox (type default icon text caption : Value) : Draw Int := do
  let (labels, chosen) ← (messageBoxChoice type default : Except Failure (List String × Int))
  let f ← newFont .nothing dialogTextHeight false false
  let message := messageOf (← (optionOf iconMarks icon : Except Failure String)) text
  measurable message
  measurable caption
  let layout := dialogLayout (← frameRect (← get)) f message caption labels.length
  refresh
  drawDialog f layout labels message caption chosen
  settleDialog layout.buttons chosen

end GraphicsBatch.Window
