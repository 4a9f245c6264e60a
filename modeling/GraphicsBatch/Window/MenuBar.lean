import GraphicsBatch.Window.Basic

/-! # The menu bar and its popups -/

namespace GraphicsBatch.Window

def menuPadding : Int := 10
def menuItemHeight : Int := 22
def menuSeparatorHeight : Int := 8
def menuTextHeight : Int := 18

/-! ## Layout -/

/-- Width of a menu entry. -/
def entryWidth (f : Font) (name : Value) : Int := f.widthOf name + 2 * menuPadding

/-- The headers side by side. -/
def headerRects (f : Font) (left : Int) : Menu → List Rect
  | [] => []
  | p :: ps =>
    let width := entryWidth f p.item.name
    ⟨left, 0, width, menuBarHeight⟩ :: headerRects f (left + width) ps

def memberHeight : Member → Int
  | none => menuSeparatorHeight
  | some _ => menuItemHeight

/-- Members one below the other. -/
def stackRects (left width : Int) (top : Int) : List Member → List Rect
  | [] => []
  | m :: ms => ⟨left, top, width, memberHeight m⟩ :: stackRects left width (top + memberHeight m) ms

/-- The members of a popup under its header, as wide as the widest of them. -/
def memberRects (f : Font) (header : Rect) (members : List Member) : List Rect :=
  let widths := members.filterMap fun m => m.map fun item => entryWidth f item.name
  stackRects header.left (widths.foldl max header.width) header.bottom members

/-! ## Drawing -/

def menuFont : Draw Font := newFont .nothing menuTextHeight false false

def headers : Draw (List Rect) := do
  let f ← menuFont
  let w ← get
  w.panel.menu.forM fun p => measurable p.item.name
  return headerRects f 0 w.panel.menu

/-- The popup of an index with the rectangles of its members. -/
def popupRects (index : Nat) : Draw (List (Member × Rect)) := do
  let f ← menuFont
  let rects ← headers
  let w ← get
  match rects[index]?, w.panel.menu[index]? with
  | some header, some popup =>
    popup.members.forM fun m => m.elim (return ()) fun item => measurable item.name
    return popup.members.zip (memberRects f header popup.members)
  | _, _ => throw .outOfRange

def drawMenuBar : Draw Unit := do
  let f ← menuFont
  let rects ← headers
  let w ← get
  (w.panel.menu.zip rects).forM fun (popup, rect) => do
    let s ← render f popup.item.name .black none
    emit (.blit 0 s.id (.pixel ⟨rect.left + menuPadding, rect.top + 3⟩) false)
  emit (.line 0 shadow ⟨0, menuBarHeight - 1⟩ ⟨w.frame.1, menuBarHeight - 1⟩)

/-- Draws a popup. Entries without a label are grey. -/
def drawPopup (index : Nat) : Draw Unit := do
  let f ← menuFont
  let members ← popupRects index
  match members.map (·.2) with
  | [] => return ()
  | first :: rest =>
    let outline := rest.foldl Rect.union first
    emit (.rect 0 face outline 0)
    emit (.rect 0 shadow outline 1)
    members.forM fun (member, rect) =>
      match member with
      | none =>
        let y := rect.centre.y
        emit (.line 0 shadow ⟨rect.left + 2, y⟩ ⟨rect.right - 3, y⟩)
      | some item => do
        let s ← render f item.name (if item.label.isSome then .black else shadow) none
        emit (.blit 0 s.id (.pixel ⟨rect.left + menuPadding, rect.top + 3⟩) false)

/-- Draws the window: canvas, menu bar and open popup. -/
def refresh : Draw Unit := do
  emit (.fill 0 ⟨face, none⟩)
  let w ← get
  emit (.blit 0 w.canvas.id (.pixel ⟨0, w.menuHeight⟩) false)
  if !w.panel.menu.isEmpty then drawMenuBar
  match w.openPopup with
  | some index => drawPopup index
  | none => pure ()
  emit .flip

/-! ## Using the menu -/

/-- Shows a menu and makes room for it. -/
def showMenu (menu : Menu) : Draw Unit := do
  let before := (← get).panel.menu.isEmpty
  modify fun w => { w with panel := w.panel.showMenu menu, openPopup := none }
  if before != menu.isEmpty then fitFrame

def select (id : Nat) : Event := { kind := .menuSelect, params := [.int id] }

/-- A place that is compared with no rectangle. -/
def notAPlace : Failure := .badArguments "argument must contain two numbers"

/-- Whether a rectangle is clicked on. -/
def hit (r : Rect) (p : Pixel) : Except Failure Bool :=
  match p.stored? with
  | some p => .ok (r.contains p)
  | none => .error notAPlace

/-- The entry of the open popup that is clicked on. -/
def clickedEntry (p : Pixel) : List (Member × Rect) → Except Failure (Option MenuItem)
  | [] => .ok none
  | (none, _) :: rest => clickedEntry p rest
  | (some item, rect) :: rest => do
    if ← hit rect p then return some item
    else clickedEntry p rest

/-- Goes through the headers: one with members is opened, one without is chosen. -/
def clickHeaders (p : Pixel) : List (Nat × Popup × Rect) → Draw (Option Event)
  | [] => return none
  | (index, popup, rect) :: rest => do
    if ← hit rect p then
      if popup.members.isEmpty then return some (select popup.item.id)
      modify fun w => { w with openPopup := some index }
    clickHeaders p rest

/-- Takes a click that is not on an open popup. -/
def barClick (p : Pixel) (menu : Menu) : Draw (Option Event) := do
  let rects ← headers
  match ← clickHeaders p ((menu.zip rects).zipIdx.map fun (x, i) => (i, x)) with
  | some e => return some e
  | none =>
    refresh
    return none

/-- Takes a click on the menu bar, or any click while a popup is open. -/
def menuClick (p : Pixel) : Draw (Option Event) := do
  let w ← get
  match w.openPopup with
  | some index =>
    modify fun w => { w with openPopup := none }
    if w.panel.menu.length ≤ index then throw .outOfRange
    let members ← popupRects index
    if let some item := ← clickedEntry p members then
      refresh
      return some (select item.id)
  | none => pure ()
  barClick p w.panel.menu

end GraphicsBatch.Window
