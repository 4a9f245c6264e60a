import GraphicsBatch.Window.Dialog

/-! # Input at the window -/

namespace GraphicsBatch.Window

/-! ## Keys -/

/-- Runs of key codes of the display, with the virtual-key code of the first of each. -/
def keyRuns : List (Int × Int × Int) := [
  (8, 9, 8), (13, 13, 13), (27, 27, 27), (32, 32, 32), (48, 57, 48), (97, 122, 65), (127, 127, 46),
  (1073741881, 1073741881, 20), (1073741882, 1073741893, 112), (1073741894, 1073741894, 44),
  (1073741895, 1073741895, 145), (1073741896, 1073741896, 19), (1073741897, 1073741897, 45),
  (1073741898, 1073741898, 36), (1073741899, 1073741899, 33), (1073741901, 1073741901, 35),
  (1073741902, 1073741902, 34), (1073741903, 1073741903, 39), (1073741904, 1073741904, 37),
  (1073741905, 1073741905, 40), (1073741906, 1073741906, 38), (1073741907, 1073741907, 144),
  (1073741908, 1073741908, 111), (1073741909, 1073741909, 106), (1073741910, 1073741910, 109),
  (1073741911, 1073741911, 107), (1073741912, 1073741912, 13), (1073741913, 1073741921, 97),
  (1073741922, 1073741922, 96), (1073741923, 1073741923, 110), (1073741928, 1073741930, 124),
  (1073742048, 1073742048, 17), (1073742049, 1073742049, 16), (1073742050, 1073742050, 18),
  (1073742052, 1073742052, 17), (1073742053, 1073742053, 16), (1073742054, 1073742054, 18)]

def virtualKeyOf (code : Int) : Option Int :=
  (keyRuns.find? fun (first, last, _) => first ≤ code && code ≤ last).map
    fun (first, _, vk) => vk + (code - first)

/-- Whether some modifier bits say that Ctrl is held: one of the bits 64 and 128, one for each side of
the keyboard. -/
def holdsCtrl (modifiers : Int) : Bool := 64 ≤ modifiers % 256

/-- The visible character that a key types. With Ctrl down it is told from the key itself. -/
def typedChar (code : Int) (ctrl : Bool) (typed : String) : Option String :=
  if typed ≠ "" ∧ "!" ≤ typed ∧ typed ≤ "~" then some typed
  else if ctrl ∧ 33 ≤ code ∧ code ≤ 126 then some (Char.ofNat code.toNat).toString
  else none

/-- The event of a key press; keys that mean nothing make none. -/
def keyEvent (code modifiers : Int) (typed : String) : Option Event :=
  let ctrl := holdsCtrl modifiers
  let char := typedChar code ctrl typed
  let vk := virtualKeyOf code
  if vk.isNone && char.isNone then none
  else some { kind := .keyDown, params := [vk.elim .none .int, char.elim .none .text, .flag ctrl] }

/-! ## Events of the window -/

/-- The event of a click on the canvas, in the program's coordinates. The wheel makes none. -/
def clickEvent (w : Window) (p : Pixel) (button : Int) : Except NumberFault (Option Event) := do
  let unscaled (n : Int) : Except NumberFault Int := do
    Binary64.truncate ((← Binary64.ofInt n) / w.scale)
  if 1 ≤ button ∧ button ≤ 3 then
    let x ← unscaled p.x
    let y ← unscaled (p.y - w.menuHeight)
    return some { kind := .mouseClick, params := [.int x, .int y, .int button] }
  else return none

/-- Turns what happens at the display into an event of the program, if it is one. -/
def eventOf (e : DisplayEvent) : Draw (Option Event) := do
  let w ← get
  match e with
  | .quit => return some { kind := .quit }
  | .click p button =>
    -- While a popup is open it takes all clicks, wherever they are.
    if w.openPopup.isSome || p.y < w.menuHeight then menuClick p
    else inRange (w.clickEvent p button)
  | .key code modifiers typed =>
    -- Escape closes a popup, and the program does not hear of it.
    if code = 27 && w.openPopup.isSome then
      modify fun w => { w with openPopup := none }
      refresh
      return none
    return keyEvent code modifiers typed
  | .resize width height =>
    -- The menu bar is no part of the canvas.
    resize (width, max 1 (height - w.menuHeight))
    refresh
    return none
  | .exposed =>
    refresh
    return none
  | .other => return none

/-! ## Waiting -/

/-- Milliseconds between looks at the focus. -/
def focusPoll : Int := 100

/-- How long to wait for the next event, where 0 sets no limit; `none` if the wait is over. In `FOCUS`
mode a timed wait only lasts while the window is not in focus. -/
def waitLimit : Draw (Option Int) := do
  let w ← get
  match ← inRange w.panel.remaining with
  | none => return some 0
  | some ms =>
    if w.panel.waitMode = .text "FOCUS" then
      let (focused, d) := w.display.hasFocus
      modify (mapDisplay fun _ => d)
      return if focused then none else some focusPoll
    else return if ms ≤ 0 then none else some ms

/-- One round of a wait: the wait is over, or something happens at the display. -/
def round : Draw (Option Event) := do
  match ← waitLimit with
  | none => return some { kind := .timeout }
  | some ms => eventOf (← nextEvent ms)

/-- Waits for an event of the program. `none` means that the wait did not end within the given number
of rounds. -/
def await : (fuel : Nat) → Draw (Option Event)
  | 0 => return none
  | fuel + 1 => do
    match ← round with
    | some e => return some e
    | none => await fuel

/-- Rounds that a wait can take: one for each event and each look at the focus, and some for a clock
that is not exact. -/
def waitRounds (w : Window) : Nat := w.display.pending + w.display.focus.length + 10

def waitEvent : Draw (Option Event) := do
  refresh
  modify fun w => { w with panel := w.panel.reap }
  await (waitRounds (← get))

/-- Whether the window is being closed. -/
def isClosing (w : Window) : Bool × Window :=
  let (quit, d) := w.display.peekQuit
  (quit, w.mapDisplay fun _ => d)

end GraphicsBatch.Window
