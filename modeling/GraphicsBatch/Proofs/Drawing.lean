import GraphicsBatch.Window.Host

/-!
# What drawing leaves alone

Drawing adds to what is drawn and numbers surfaces and fonts. It changes nothing about input, waits and events, and it
never looks at the log. If the window on the screen is given another size, that is one with room for canvas and menu bar.
The window is redrawn without fail as long as its menu can be measured and the popup that is open is one of the menu.
-/

namespace GraphicsBatch

/-- A plain host without what is drawn, played and logged. -/
def Panel.undrawn (p : Panel) : Panel :=
  { p with world := { p.world with
      log := {}
      display := { p.world.display with mixer := .off, surfaces := 0, fonts := 0, calls := #[] } } }

/-- All names of a menu can be measured. -/
def Menu.Measurable (menu : Menu) : Prop := ∀ i ∈ menu.items, i.name.length?.isSome = true

namespace Window

/-- The side of a window that is not drawn: input, waits, events, the open popup and the scale. -/
structure Situation where
  panel : Panel
  openPopup : Option Nat
  scale : Float

def situation (w : Window) : Situation := ⟨w.panel.undrawn, w.openPopup, w.scale⟩

/-- The open popup is one of the menu, and all names can be measured. -/
structure Situation.Presentable (s : Situation) : Prop where
  names : s.panel.menu.Measurable
  popup : ∀ index, s.openPopup = some index → index < s.panel.menu.length

def withLog (log : Log) (w : Window) : Window := w.mapWorld fun world => { world with log }

/-! ## Work in parts -/

section

variable {α β : Type} {act : Draw α} {k : α → Draw β} {w : Window}

theorem run_bind (act : Draw α) (k : α → Draw β) (w : Window) :
    (act >>= k).run.run w = match act.run.run w with
      | (.ok a, w') => (k a).run.run w'
      | (.error f, w') => (.error f, w') := by
  change (ExceptT.bindCont k (act.run.run w).1).run (act.run.run w).2 = _
  rcases act.run.run w with ⟨_ | a, w'⟩ <;> rfl

theorem ok_of_bind {b : β} (h : ((act >>= k).run.run w).1 = .ok b) :
    ∃ a, (act.run.run w).1 = .ok a ∧ ((k a).run.run (act.run.run w).2).1 = .ok b := by
  rw [run_bind] at h
  generalize act.run.run w = x at h
  obtain ⟨_ | a, w'⟩ := x
  · cases h
  · exact ⟨a, rfl, h⟩

theorem run_get_bind (k : Window → Draw α) (w : Window) : (get >>= k).run.run w = (k w).run.run w := rfl

theorem run_lift_bind (a : α) (k : α → Draw β) (w : Window) :
    ((liftM (Except.ok a : Except Failure α) : Draw α) >>= k).run.run w = (k a).run.run w := rfl

end

theorem run_measurable {text : Value} (h : text.length?.isSome = true) (w : Window) :
    (measurable text).run.run w = (.ok (), w) := by
  obtain ⟨n, hn⟩ := Option.isSome_iff_exists.mp h
  simp only [measurable, hn]
  rfl

/-! ## The log is never read -/

/-- The work `act` does the same whatever has been logged. -/
def Blind {α : Type} (act : Draw α) : Prop :=
  ∀ (w : Window) (log : Log), (act.run.run (w.withLog log)).1 = (act.run.run w).1 ∧
    (act.run.run (w.withLog log)).2.withLog {} = (act.run.run w).2.withLog {}

namespace Blind

variable {α β : Type}

theorem alike {act : Draw α} (h : Blind act) {w w' : Window} (hw : w.withLog {} = w'.withLog {}) :
    (act.run.run w).1 = (act.run.run w').1 ∧ (act.run.run w).2.withLog {} = (act.run.run w').2.withLog {} := by
  have hlog : w = w'.withLog w.panel.world.log := (congrArg (withLog w.panel.world.log) hw :)
  rw [hlog]
  exact h w' _

theorem pure (a : α) : Blind (Pure.pure a : Draw α) := fun _ _ => ⟨rfl, rfl⟩

theorem bind {act : Draw α} {k : α → Draw β} (h : Blind act) (hk : ∀ a, Blind (k a)) : Blind (act >>= k) := by
  intro w log
  obtain ⟨hresult, hwindow⟩ := h w log
  rw [run_bind, run_bind]
  generalize act.run.run (w.withLog log) = x at hresult hwindow
  generalize act.run.run w = y at hresult hwindow
  obtain ⟨x₁, w₁⟩ := x
  obtain ⟨_ | a, w₂⟩ := y <;> obtain rfl : x₁ = _ := hresult
  · exact ⟨rfl, hwindow⟩
  · exact (hk a).alike hwindow

theorem look {k : Window → Draw α} (hlog : ∀ w log, k (w.withLog log) = k w) (hk : ∀ w, Blind (k w)) :
    Blind (get >>= k) := by
  intro w log
  rw [run_get_bind, run_get_bind, hlog]
  exact hk w w log

theorem modify {f : Window → Window} (hf : ∀ w log, (f (w.withLog log)).withLog {} = (f w).withLog {}) :
    Blind (modify f : Draw Unit) := fun w log => ⟨rfl, hf w log⟩

theorem lift (x : Except Failure α) : Blind (liftM x : Draw α) := fun _ _ => ⟨rfl, rfl⟩

theorem throw (f : Failure) : Blind (MonadExcept.throw f : Draw α) := fun _ _ => ⟨rfl, rfl⟩

end Blind

/-! ## The window on the screen -/

end Window

/-- The size that a call gives the window on the screen. -/
def Call.mode? : Call → Option (Int × Int)
  | .setMode width height => some (width, height)
  | _ => none

/-- All sizes that the window on the screen has been given, one after another. -/
def Display.modes (d : Display) : List (Int × Int) := d.calls.toList.filterMap Call.mode?

theorem Display.modes_push (d : Display) (c : Call) : (d.push c).modes = d.modes ++ c.mode?.toList := by
  cases hc : c.mode? <;> simp [modes, push, hc]

namespace Window

/-- The sizes of the window on the screen, and what they have to make room for. -/
structure Fit where
  modes : List (Int × Int)
  size : Int × Int
  menu : Menu

def fit (w : Window) : Fit := ⟨w.display.modes, w.size, w.panel.menu⟩

namespace Fit

/-- The window on the screen is as large as canvas and menu bar together. -/
def Snug (f : Fit) : Prop :=
  f.modes.getLast? = some (f.size.1, f.size.2 + if f.menu.isEmpty then 0 else menuBarHeight)

/-- The window on the screen has been given another size, and fits. -/
structure Anew (f f' : Fit) : Prop where
  menu : f'.menu = f.menu
  longer : f.modes.length < f'.modes.length
  snug : f'.Snug

/-- Nothing has changed, or the window on the screen has been set anew. -/
inductive Refits (f : Fit) : Fit → Prop where
  | same : Refits f f
  | anew {f' : Fit} : f.Anew f' → Refits f f'

variable {f f' f'' : Fit}

theorem Refits.trans_anew (h : f.Refits f') (h' : f'.Anew f'') : f.Anew f'' := by
  cases h with
  | same => exact h'
  | anew h => exact ⟨h'.menu.trans h.menu, Nat.lt_trans h.longer h'.longer, h'.snug⟩

theorem Refits.trans (h : f.Refits f') (h' : f'.Refits f'') : f.Refits f'' := by
  cases h' with
  | same => exact h
  | anew h' => exact .anew (h.trans_anew h')

end Fit

theorem fit_push (w : Window) {c : Call} (hc : c.mode? = none) : (w.mapDisplay (·.push c)).fit = w.fit := by
  change Fit.mk (w.display.push c).modes w.size w.panel.menu = _
  rw [Display.modes_push, hc, Option.toList_none, List.append_nil]
  rfl

theorem fit_fitFrame (w : Window) : w.fit.Anew (fitFrame.run.run w).2.fit := by
  have hmodes : (fitFrame.run.run w).2.fit.modes = w.display.modes ++ [(w.size.1, w.size.2 + w.menuHeight)] :=
    w.display.modes_push _
  refine ⟨rfl, ?_, ?_⟩
  · rw [hmodes, List.length_append]
    exact Nat.lt_succ_self _
  · rw [Fit.Snug, hmodes, List.getLast?_concat]
    rfl

/-! ## Rules for drawing -/

/-- The work `act` only draws. If `fine` holds of the situation it does not fail. -/
structure Draws {α : Type} (fine : Situation → Prop) (act : Draw α) : Prop where
  keeps (w : Window) : (act.run.run w).2.situation = w.situation
  succeeds (w : Window) : fine w.situation → ∃ a, (act.run.run w).1 = .ok a
  blind : Blind act
  refits (w : Window) : w.fit.Refits (act.run.run w).2.fit

namespace Draws

variable {α β : Type} {fine fine' : Situation → Prop}

theorem ok {act : Draw α} (h : Draws fine act) {w : Window} (hw : fine w.situation) :
    ∃ a w', act.run.run w = (.ok a, w') ∧ w'.situation = w.situation := by
  obtain ⟨a, ha⟩ := h.succeeds w hw
  exact ⟨a, _, Prod.ext ha rfl, h.keeps w⟩

theorem pure (a : α) : Draws fine (Pure.pure a : Draw α) :=
  ⟨fun _ => rfl, fun _ _ => ⟨a, rfl⟩, .pure a, fun _ => .same⟩

theorem mono {act : Draw α} (h : Draws fine act) (hfine : ∀ s, fine' s → fine s) : Draws fine' act :=
  ⟨h.keeps, fun w hw => h.succeeds w (hfine _ hw), h.blind, h.refits⟩

/-- What comes second may build on what comes first, and on the situation in which that was found. -/
theorem bindWith {act : Draw α} {k : α → Draw β} (h : Draws fine act)
    (hk : ∀ a, Draws (fun s => fine s ∧ ∃ w : Window, w.situation = s ∧ (act.run.run w).1 = .ok a) (k a)) :
    Draws fine (act >>= k) where
  keeps w := by
    have hact := h.keeps w
    rw [run_bind]
    generalize act.run.run w = x at hact
    obtain ⟨_ | a, w'⟩ := x
    · exact hact
    · exact ((hk a).keeps w').trans hact
  succeeds w hw := by
    have hact := h.keeps w
    obtain ⟨a, ha⟩ := h.succeeds w hw
    -- The first part leaves the situation as it is, so the window itself shows what `k a` may assume.
    have hfine : fine (act.run.run w).2.situation ∧
        ∃ w' : Window, w'.situation = (act.run.run w).2.situation ∧ (act.run.run w').1 = .ok a :=
      ⟨hact.symm ▸ hw, w, hact.symm, ha⟩
    obtain ⟨b, hb⟩ := (hk a).succeeds _ hfine
    rw [run_bind]
    generalize act.run.run w = x at ha hb
    obtain ⟨r, w'⟩ := x
    obtain rfl : r = .ok a := ha
    exact ⟨b, hb⟩
  blind := h.blind.bind fun a => (hk a).blind
  refits w := by
    have hact := h.refits w
    rw [run_bind]
    generalize act.run.run w = x at hact
    obtain ⟨_ | a, w'⟩ := x
    · exact hact
    · exact hact.trans ((hk a).refits w')

theorem bind {act : Draw α} {k : α → Draw β} (h : Draws fine act) (hk : ∀ a, Draws fine (k a)) :
    Draws fine (act >>= k) :=
  h.bindWith fun a => (hk a).mono fun _ => And.left

/-- Work that looks at the window, but not at its log. -/
theorem look {k : Window → Draw α} (hlog : ∀ w log, k (w.withLog log) = k w)
    (hk : ∀ w, Draws (fun s => fine s ∧ s = w.situation) (k w)) : Draws fine (get >>= k) where
  keeps w := (hk w).keeps w
  succeeds w hw := (hk w).succeeds w ⟨hw, rfl⟩
  blind := .look hlog fun w => (hk w).blind
  refits w := (hk w).refits w

theorem glance {k : Window → Draw α} (hlog : ∀ w log, k (w.withLog log) = k w) (hk : ∀ w, Draws fine (k w)) :
    Draws fine (get >>= k) :=
  look hlog fun w => (hk w).mono fun _ => And.left

theorem modify {f : Window → Window} (hkeeps : ∀ w, (f w).situation = w.situation ∧ (f w).fit = w.fit)
    (hlog : ∀ w log, (f (w.withLog log)).withLog {} = (f w).withLog {}) : Draws fine (modify f : Draw Unit) where
  keeps w := (hkeeps w).1
  succeeds _ _ := ⟨(), rfl⟩
  blind := .modify hlog
  refits w := (congrArg w.fit.Refits (hkeeps w).2).mpr .same

theorem lift {x : Except Failure α} (hx : ∀ s, fine s → ∃ a, x = .ok a) : Draws fine (liftM x : Draw α) :=
  ⟨fun _ => rfl, fun _ hw => hx _ hw, .lift x, fun _ => .same⟩

theorem throw (f : Failure) (hfine : ∀ s, ¬ fine s) : Draws fine (MonadExcept.throw f : Draw α) :=
  ⟨fun _ => rfl, fun _ hw => (hfine _ hw).elim, .throw f, fun _ => .same⟩

theorem inRange {x : Except NumberFault α} (hx : ∀ s, fine s → ∃ a, x = .ok a) : Draws fine (Window.inRange x) := by
  refine lift fun s hs => ?_
  obtain ⟨a, rfl⟩ := hx s hs
  exact ⟨a, rfl⟩

theorem forM {xs : List α} {f : α → Draw Unit} (hf : ∀ x ∈ xs, Draws fine (f x)) : Draws fine (xs.forM f) := by
  induction xs with
  | nil => exact pure ()
  | cons x xs ih =>
    exact bind (hf x List.mem_cons_self) fun _ => ih fun x' hx' => hf x' (List.mem_cons_of_mem _ hx')

/-! ## Surfaces and fonts -/

theorem emit {c : Call} (hc : c.mode? = none) : Draws fine (Window.emit c) :=
  modify (fun w => ⟨rfl, w.fit_push hc⟩) fun _ _ => rfl

theorem number (width height : Int) : Draws fine (Window.number width height) :=
  glance (fun _ _ => rfl) fun _ => bind (modify (fun _ => ⟨rfl, rfl⟩) fun _ _ => rfl) fun _ => pure _

theorem newSurface (width height : Int) (alpha : Bool) : Draws fine (Window.newSurface width height alpha) :=
  bind (number _ _) fun _ => bind (emit rfl) fun _ => pure _

theorem newFont (name : Value) (height : Int) (bold italic : Bool) :
    Draws fine (Window.newFont name height bold italic) :=
  glance (fun _ _ => rfl) fun _ =>
    bind (modify (fun _ => ⟨rfl, rfl⟩) fun _ _ => rfl) fun _ => bind (emit rfl) fun _ => pure _

theorem measurable {text : Value} (htext : ∀ s, fine s → text.length?.isSome = true) :
    Draws fine (Window.measurable text) := by
  unfold Window.measurable
  split
  · rename_i hnone
    refine throw _ fun s hs => ?_
    simp [Option.isNone_iff_eq_none.mp hnone] at htext
    exact htext s hs
  · exact pure ()

theorem render (f : Font) {text : Value} (colour : Colour) (background : Option Colour)
    (htext : ∀ s, fine s → text.length?.isSome = true) : Draws fine (Window.render f text colour background) :=
  bind (measurable htext) fun _ => bind (number _ _) fun _ => bind (emit rfl) fun _ => pure _

theorem fitFrame : Draws fine Window.fitFrame where
  keeps _ := rfl
  succeeds _ _ := ⟨(), rfl⟩
  blind := .look (fun _ _ => rfl) fun _ => .bind (.modify fun _ _ => rfl) fun _ => .modify fun _ _ => rfl
  refits w := .anew w.fit_fitFrame

/-- What comes second sets the window on the screen anew. -/
theorem bind_anew {act : Draw α} {k : α → Draw β} (h : Draws (fun _ => True) act)
    (hk : ∀ a (w : Window), w.fit.Anew ((k a).run.run w).2.fit) (w : Window) :
    w.fit.Anew ((act >>= k).run.run w).2.fit := by
  have hact := h.refits w
  obtain ⟨a, ha⟩ := h.succeeds w trivial
  rw [run_bind]
  generalize act.run.run w = x at hact ha
  obtain ⟨r, w'⟩ := x
  obtain rfl : r = .ok a := ha
  exact hact.trans_anew (hk a w')

theorem resize (size : Int × Int) : Draws fine (Window.resize size) := by
  -- For a moment the canvas has its new size and the window on the screen has not.
  obtain ⟨rest, hrest, hdraws, hanew⟩ : ∃ rest : Draw Unit,
      Window.resize size = (do
        MonadState.modifyGet fun w => ((), { w with size })
        rest) ∧ Draws fine rest ∧ ∀ w : Window, w.fit.Anew (rest.run.run w).2.fit := by
    refine ⟨_, rfl, ?_, ?_⟩
    · refine bind (newSurface _ _ _) fun canvas => glance (fun _ _ => rfl) fun w => bind (emit rfl) fun _ => ?_
      exact bind (emit rfl) fun _ => bind (modify (fun _ => ⟨rfl, rfl⟩) fun _ _ => rfl) fun _ => fitFrame
    · refine bind_anew (newSurface _ _ _) fun canvas w => ?_
      rw [run_get_bind]
      refine bind_anew (emit rfl) (fun _ => bind_anew (emit rfl) fun _ => ?_) w
      exact bind_anew (modify (fun _ => ⟨rfl, rfl⟩) fun _ _ => rfl) fun _ => fit_fitFrame
  rw [hrest]
  exact ⟨fun w => hdraws.keeps { w with size }, fun w => hdraws.succeeds { w with size },
    .bind (.modify fun _ _ => rfl) fun _ => hdraws.blind,
    fun w => .anew ⟨(hanew { w with size }).menu, (hanew { w with size }).longer, (hanew { w with size }).snug⟩⟩

/-! ## The menu bar -/

theorem menuFont : Draws fine Window.menuFont := newFont _ _ _ _

theorem headers (hnames : ∀ s, fine s → s.panel.menu.Measurable) : Draws fine Window.headers := by
  refine bind menuFont fun f => look (fun _ _ => rfl) fun w => bind (forM fun p hp => measurable ?_) fun _ => pure _
  rintro s ⟨hs, rfl⟩
  refine hnames _ hs p.item (List.mem_flatMap.mpr ⟨p, hp, List.mem_cons_self⟩)

theorem length_headerRects (f : Font) (left : Int) (menu : Menu) : (headerRects f left menu).length = menu.length := by
  induction menu generalizing left with
  | nil => rfl
  | cons p menu ih => simp [headerRects, ih]

theorem length_headers {w : Window} {rects : List Rect} (h : (Window.headers.run.run w).1 = .ok rects) :
    rects.length = w.situation.panel.menu.length := by
  obtain ⟨f, -, h⟩ := ok_of_bind h
  rw [← (menuFont : Draws (fun _ => False) _).keeps w]
  rw [run_get_bind] at h
  obtain ⟨_, -, h⟩ := ok_of_bind h
  rw [← Except.ok.inj h]
  exact length_headerRects f 0 _

theorem popupRects {index : Nat} (hfine : ∀ s, fine s → s.panel.menu.Measurable ∧ index < s.panel.menu.length) :
    Draws fine (Window.popupRects index) := by
  refine bind menuFont fun f => bindWith (headers fun s hs => (hfine s hs).1) fun rects => ?_
  refine look (fun _ _ => rfl) fun w => ?_
  split
  · rename_i header popup hheader hpopup
    refine bind (forM fun m hm => ?_) fun _ => pure _
    cases m with
    | none => exact pure ()
    | some item =>
      refine measurable ?_
      rintro s ⟨⟨hs, -⟩, rfl⟩
      refine (hfine _ hs).1 item (List.mem_flatMap.mpr ⟨popup, List.mem_of_getElem? hpopup, ?_⟩)
      exact List.mem_cons_of_mem _ (List.mem_filterMap.mpr ⟨_, hm, rfl⟩)
  · rename_i hnone
    refine throw _ ?_
    rintro s ⟨⟨hs, w', hw', hrects⟩, rfl⟩
    have hindex : index < w.panel.menu.length := (hfine _ hs).2
    have hlength : rects.length = w.panel.menu.length := (length_headers hrects).trans (by rw [hw']; rfl)
    exact hnone _ _ (List.getElem?_eq_getElem (hlength ▸ hindex)) (List.getElem?_eq_getElem hindex)

theorem drawMenuBar (hnames : ∀ s, fine s → s.panel.menu.Measurable) : Draws fine Window.drawMenuBar := by
  refine bind menuFont fun f => bind (headers hnames) fun rects => look (fun _ _ => rfl) fun w => ?_
  refine bind (forM fun entry hentry => ?_) fun _ => emit rfl
  refine bind (render f _ _ ?_) fun s => emit rfl
  rintro s ⟨hs, rfl⟩
  refine hnames _ hs entry.1.item (List.mem_flatMap.mpr ⟨entry.1, ?_, List.mem_cons_self⟩)
  exact (List.of_mem_zip hentry).1

theorem mem_popupRects {index : Nat} {w : Window} {members : List (Member × Rect)}
    (h : ((Window.popupRects index).run.run w).1 = .ok members) {item : MenuItem} {rect : Rect}
    (hmem : (some item, rect) ∈ members) : item ∈ w.situation.panel.menu.items := by
  obtain ⟨f, -, h⟩ := ok_of_bind h
  rw [← (menuFont : Draws (fun _ => False) _).keeps w]
  obtain ⟨rects, -, h⟩ := ok_of_bind h
  rw [← (headers fun _ => False.elim : Draws (fun _ => False) _).keeps]
  rw [run_get_bind] at h
  split at h
  · rename_i header popup hheader hpopup
    obtain ⟨_, -, h⟩ := ok_of_bind h
    obtain rfl := Except.ok.inj h
    refine List.mem_flatMap.mpr ⟨popup, List.mem_of_getElem? hpopup, List.mem_cons_of_mem _ ?_⟩
    exact List.mem_filterMap.mpr ⟨_, (List.of_mem_zip hmem).1, rfl⟩
  · cases h

theorem drawPopup {index : Nat} (hfine : ∀ s, fine s → s.panel.menu.Measurable ∧ index < s.panel.menu.length) :
    Draws fine (Window.drawPopup index) := by
  refine bind menuFont fun f => bindWith (popupRects hfine) fun members => ?_
  split
  · exact pure ()
  · refine bind (emit rfl) fun _ => bind (emit rfl) fun _ => forM fun entry hentry => ?_
    obtain ⟨_ | item, rect⟩ := entry
    · exact emit rfl
    · refine bind (render f _ _ ?_) fun s => emit rfl
      rintro s ⟨hs, w, rfl, hmembers⟩
      exact (hfine _ hs).1 item (mem_popupRects hmembers hentry)

theorem refresh (hfine : ∀ s, fine s → s.Presentable) : Draws fine Window.refresh := by
  refine bind (emit rfl) fun _ => look (fun _ _ => rfl) fun w => bind (emit rfl) fun _ => ?_
  have hpopup : ∀ index, w.openPopup = some index → Draws (fun s => fine s ∧ s = w.situation) (do
      Window.drawPopup index
      Window.emit .flip) := by
    intro index hindex
    refine bind (drawPopup ?_) fun _ => emit rfl
    rintro s ⟨hs, rfl⟩
    exact ⟨(hfine _ hs).names, (hfine _ hs).popup index hindex⟩
  dsimp only
  split
  · refine bind (drawMenuBar fun s hs => (hfine s hs.1).names) fun _ => ?_
    split
    · exact hpopup _ (by assumption)
    · exact emit rfl
  · split
    · exact hpopup _ (by assumption)
    · exact emit rfl

/-! ## The canvas -/

section

variable {never : Situation → Prop} (hnever : ∀ s, ¬ never s)

include hnever

theorem optional (x : Except Failure α) : Draws never (liftM x : Draw α) := lift fun s hs => (hnever s hs).elim

theorem whole (x : Except NumberFault α) : Draws never (Window.inRange x) := inRange fun s hs => (hnever s hs).elim

theorem pixels (v : Value) : Draws never (Window.pixels v) :=
  bind (optional hnever _) fun _ => glance (fun _ _ => rfl) fun _ => whole hnever _

theorem pointAt (x y : Value) : Draws never (Window.pointAt x y) :=
  bind (pixels hnever x) fun _ => bind (pixels hnever y) fun _ => pure _

theorem hatchTile : Draws never Window.hatchTile := by
  refine bind (newSurface _ _ _) fun tile => glance (fun _ _ => rfl) fun w => bind (emit rfl) fun _ => ?_
  exact bind (optional hnever _) fun lines => bind (forM fun _ _ => emit rfl) fun _ => pure _

theorem brushSurface (width height : Int) : Draws never (Window.brushSurface width height) := by
  refine bind (newSurface _ _ _) fun surface => glance (fun _ _ => rfl) fun w => ?_
  dsimp only
  split
  · exact bind (emit rfl) fun _ => pure _
  · refine bind (hatchTile hnever) fun tile => bind (forM fun x _ => forM fun y _ => emit rfl) fun _ => pure _

theorem paintThrough (stencil : Surface) (corner : Pixel) : Draws never (Window.paintThrough stencil corner) := by
  refine glance (fun _ _ => rfl) fun w => ?_
  split
  · exact bind (brushSurface hnever _ _) fun fill => bind (emit rfl) fun _ => emit rfl
  · exact pure ()

theorem fillShape (points : List Point) : Draws never (Window.fillShape points) := by
  refine glance (fun _ _ => rfl) fun w => ?_
  split
  · dsimp only
    split
    · refine bind (whole hnever _) fun left => bind (whole hnever _) fun top => bind (whole hnever _) fun right => ?_
      refine bind (whole hnever _) fun bottom => bind (newSurface _ _ _) fun stencil => bind (emit rfl) fun _ => ?_
      refine bind (whole hnever _) fun dx => bind (whole hnever _) fun dy => bind (emit rfl) fun _ => ?_
      exact paintThrough hnever _ _
    · exact pure ()
  · exact pure ()

theorem stroke (points : List Point) : Draws never (Window.stroke points) := by
  refine glance (fun _ _ => rfl) fun w => ?_
  have hdashes : ∀ width : Int, Draws never (if w.pen.style ≠ .text "NULL" then do
      let pattern ← optionOf Outline.penDashes w.pen.style
      (Outline.dashes points pattern).forM fun segment =>
        if 1 < segment.length then Window.emit (.lines w.canvas.id w.pen.colour segment width) else return ()
      else return ()) := by
    intro width
    split
    · refine bind (optional hnever _) fun pattern => forM fun segment _ => ?_
      split
      · exact emit rfl
      · exact pure ()
    · exact pure ()
  dsimp only
  split
  · split
    · exact bind (emit rfl) fun _ => hdashes _
    · exact hdashes _
  · exact pure ()

theorem shape (points : List Point) : Draws never (Window.shape points) :=
  bind (fillShape hnever points) fun _ => stroke hnever points

theorem flood (x y r g b : Value) : Draws never (Window.flood x y r g b) := by
  refine bind (pointAt hnever x y) fun place => bind (whole hnever _) fun px => bind (whole hnever _) fun py => ?_
  refine glance (fun _ _ => rfl) fun w => ?_
  dsimp only
  split
  · refine bind (optional hnever _) fun border => bind (emit rfl) fun _ => ?_
    refine bind (emit rfl) fun _ => bind (emit rfl) fun _ => ?_
    split
    · refine bind (emit rfl) fun _ => bind (number _ _) fun stencil => bind (emit rfl) fun _ => ?_
      exact paintThrough hnever _ _
    · exact pure ()
  · exact pure ()

theorem loadImage (file : Value) : Draws never (Window.loadImage file) := by
  refine glance (fun _ _ => rfl) fun w => ?_
  split
  · exact throw _ hnever
  · exact bind (number _ _) fun s => bind (emit rfl) fun _ => pure _

theorem bitmap (x y file : Value) : Draws never (Window.bitmap x y file) :=
  bind (loadImage hnever file) fun _ => bind (pointAt hnever x y) fun _ => glance (fun _ _ => rfl) fun _ => emit rfl

theorem sizedBitmap (x1 y1 x2 y2 file : Value) : Draws never (Window.sizedBitmap x1 y1 x2 y2 file) := by
  refine bind (pointAt hnever x1 y1) fun a => bind (pointAt hnever x2 y2) fun b => ?_
  refine bind (whole hnever _) fun width => bind (whole hnever _) fun height => ?_
  split
  · refine bind (loadImage hnever file) fun image => bind (number _ _) fun large => bind (emit rfl) fun _ => ?_
    exact bind (number _ _) fun final => bind (emit rfl) fun _ => glance (fun _ _ => rfl) fun _ => emit rfl
  · exact pure ()

theorem textFont : Draws never Window.textFont := by
  refine glance (fun _ _ => rfl) fun w => ?_
  split
  · exact pure _
  · refine bind (whole hnever _) fun height => bind (newFont _ _ _ _) fun f => bind (emit rfl) fun _ => ?_
    exact bind (modify (fun _ => ⟨rfl, rfl⟩) fun _ _ => rfl) fun _ => pure _

theorem spacedText (f : Font) (text : Value) (background : Option Colour) :
    Draws never (Window.spacedText f text background) := by
  refine glance (fun _ _ => rfl) fun w => bind (whole hnever _) fun width => bind (whole hnever _) fun step => ?_
  refine bind (measurable fun s hs => (hnever s hs).elim) fun _ => bind (newSurface _ _ _) fun s => ?_
  refine bind (emit rfl) fun _ => bind (forM fun part _ => ?_) fun _ => pure _
  exact bind (render f _ _ fun s hs => (hnever s hs).elim) fun glyph => emit rfl

theorem drawText (x y text : Value) : Draws never (Window.drawText x y text) := by
  refine bind (textFont hnever) fun f => glance (fun _ _ => rfl) fun w => ?_
  have hplace : ∀ s : Surface, Draws never (do
      let place ← Window.pointAt x y
      Window.emit (.blit w.canvas.id s.id (.point place) false)) :=
    fun s => bind (pointAt hnever x y) fun _ => emit rfl
  dsimp only
  split
  · exact bind (render f _ _ fun s hs => (hnever s hs).elim) hplace
  · exact bind (spacedText hnever f text _) hplace

/-! ## Settings -/

omit hnever in
theorem setWindow (option : Value) : Draws never (Window.setWindow option) := by
  refine glance (fun _ _ => rfl) fun w => ?_
  split
  · exact emit rfl
  · split <;> exact resize _

theorem useBackground (option r g b : Value) : Draws never (Window.useBackground option r g b) := by
  refine bind (modify (fun _ => ⟨rfl, rfl⟩) fun _ _ => rfl) fun _ => bind (optional hnever _) fun background => ?_
  exact modify (fun _ => ⟨rfl, rfl⟩) fun _ _ => rfl

theorem useBrush (style r g b : Value) : Draws never (Window.useBrush style r g b) := by
  refine bind (modify (fun _ => ⟨rfl, rfl⟩) fun _ _ => rfl) fun _ => bind (optional hnever _) fun colour => ?_
  exact modify (fun _ => ⟨rfl, rfl⟩) fun _ _ => rfl

theorem usePen (style width r g b : Value) : Draws never (Window.usePen style width r g b) := by
  refine bind (modify (fun _ => ⟨rfl, rfl⟩) fun _ _ => rfl) fun _ => bind (optional hnever _) fun width => ?_
  refine bind (modify (fun _ => ⟨rfl, rfl⟩) fun _ _ => rfl) fun _ => bind (optional hnever _) fun colour => ?_
  exact modify (fun _ => ⟨rfl, rfl⟩) fun _ _ => rfl

theorem useFont (name width height weight slant underline r g b : Value) :
    Draws never (Window.useFont name width height weight slant underline r g b) := by
  refine bind (modify (fun _ => ⟨rfl, rfl⟩) fun _ _ => rfl) fun _ => bind (optional hnever _) fun width => ?_
  refine bind (optional hnever _) fun height => bind (modify (fun _ => ⟨rfl, rfl⟩) fun _ _ => rfl) fun _ => ?_
  exact bind (optional hnever _) fun colour => modify (fun _ => ⟨rfl, rfl⟩) fun _ _ => rfl

omit hnever in
theorem useCaption (text : Value) : Draws never (Window.useCaption text) :=
  bind (modify (fun _ => ⟨rfl, rfl⟩) fun _ _ => rfl) fun _ => emit rfl

theorem arcOf (x1 y1 x2 y2 x3 y3 x4 y4 : Value) : Draws never (Window.arcOf x1 y1 x2 y2 x3 y3 x4 y4) := by
  refine bind (pixels hnever _) fun _ => bind (pixels hnever _) fun _ => bind (pixels hnever _) fun _ => ?_
  refine bind (pixels hnever _) fun _ => bind (pixels hnever _) fun _ => bind (pixels hnever _) fun _ => ?_
  exact bind (pixels hnever _) fun _ => bind (pixels hnever _) fun _ => pure _

omit hnever in
theorem note (r : Record) : Draws never (Window.note r) := modify (fun _ => ⟨rfl, rfl⟩) fun _ _ => rfl

theorem beep : Draws never Window.beep := by
  refine glance (fun _ _ => rfl) fun w => ?_
  have hplay : ∀ rate channels : Int, Draws never (do
      let _ ← Window.inRange (Binary64.ofInt rate)
      Window.emit (.play (Sound.byteCount rate channels Sound.beepDuration))) :=
    fun rate channels => bind (whole hnever _) fun _ => emit rfl
  dsimp only
  split
  · exact note _
  · exact hplay _ _
  · exact bind (emit rfl) fun _ => bind (modify (fun _ => ⟨rfl, rfl⟩) fun _ _ => rfl) fun _ => hplay _ _

end

/-! ## Message boxes -/

theorem drawDialog (f : Font) (layout : DialogLayout) (labels : List String) {message caption : Value} (chosen : Int)
    (hmessage : ∀ s, fine s → message.length?.isSome = true) (hcaption : ∀ s, fine s → caption.length?.isSome = true) :
    Draws fine (Window.drawDialog f layout labels message caption chosen) := by
  refine bind (emit rfl) fun _ => bind (emit rfl) fun _ => bind (emit rfl) fun _ => ?_
  refine bind (render f _ _ hcaption) fun _ => bind (emit rfl) fun _ => ?_
  refine bind (render f _ _ hmessage) fun _ => bind (emit rfl) fun _ => ?_
  refine bind (forM fun entry _ => ?_) fun _ => emit rfl
  refine bind (emit rfl) fun _ => bind (emit rfl) fun _ => bind (render f _ _ fun _ _ => rfl) fun _ => ?_
  exact emit rfl

end Draws

end Window

end GraphicsBatch
