import GraphicsBatch.Proofs.Recorded

/-!
# What an event does to a program that waits

An event that is bound takes the program to a label, and one that is not changes nothing. Which label it is follows
from the last command of each class that the host was asked to carry out.
-/

namespace GraphicsBatch

/-! ## Keys by their pairs -/

namespace KeyTable

variable {k : Option Value} (hk : ∀ v, k = some v → v.IsOwnKey)

include hk

theorem bind_find?_ofPairs (keys : List (Value × String)) :
    k.bind (ofPairs keys).find? = ((keys.filter fun e => k = some e.1).getLast?).map (·.2) := by
  cases k with
  | none => simp
  | some v =>
    rw [Option.bind_some, find?_ofPairs (hk v rfl)]
    simp only [Option.some.injEq, eq_comm]

theorem bind_find?_eq_some {t : KeyTable} {l : String} (h : k.bind t.find? = some l) :
    ∃ e ∈ t, k = some e.1 ∧ e.2 = l := by
  obtain ⟨v, hv, hfind⟩ := Option.bind_eq_some_iff.mp h
  rw [find?_eq (hk v hv)] at hfind
  obtain ⟨e, he, hl⟩ := Option.map_eq_some_iff.mp hfind
  have hkey : e.1 = v := by simpa using List.find?_some he
  exact ⟨e, List.mem_of_find?_eq_some he, by rw [hv, hkey], hl⟩

theorem bind_find?_isSome {t : KeyTable} {e : Value × String} (he : e ∈ t) (hke : k = some e.1) :
    (k.bind t.find?).isSome = true := by
  subst hke
  rw [Option.bind_some, find?_eq (hk e.1 rfl), Option.isSome_map, List.find?_isSome]
  exact ⟨e, he, by simp⟩

end KeyTable

theorem Datum.index?_eq_some {id : Datum} {k : Nat} : id.index? = some k ↔ id.codeKey? = some (.int (k + 1)) := by
  unfold index? codeKey?
  cases id.lookup with
  | value v =>
    cases v with
    | int n =>
      simp only [Option.some.injEq, Value.int.injEq]
      split
      · simp only [Option.some.injEq]
        omega
      · simp only [reduceCtorEq, false_iff]
        omega
    | _ => simp
  | _ => simp

/-! ## Classes of bindings -/

/-- The statement at an index is a given command. -/
def HasCommand (p : Program) (i : Nat) (c : Command) : Prop := ∃ args pos, p.statements[i]? = some ⟨.call c args, pos⟩

/-- A class of bindings differs only if the statement at an index is its own command. -/
structure Separate (p : Program) (i : Nat) (b b' : Bindings) : Prop where
  mouse : b'.mouse = b.mouse ∨ HasCommand p i .setMouse
  keyboard : b'.keyboard = b.keyboard ∨ HasCommand p i .setKeyboard
  menu : b'.menu = b.menu ∨ HasCommand p i .setMenu

theorem Separate.refl (p : Program) (i : Nat) (b : Bindings) : Separate p i b b := ⟨.inl rfl, .inl rfl, .inl rfl⟩

theorem Planned.separate {p : Program} {maxStack : Int} {s : State} {st : Statement} {pl : Plan} {i : Nat}
    (hpl : Planned p maxStack s st.action pl) (hst : p.statements[i]? = some st) :
    Separate p i s.bindings pl.prepared.bindings := by
  obtain ⟨action, pos⟩ := st
  have hspares := hpl.spares_prepared
  refine ⟨hspares.mouse.imp_right ?_, hspares.keyboard.imp_right ?_, hspares.menu.imp_right ?_⟩
  all_goals
    rintro ⟨args, rfl⟩
    exact ⟨args, pos, hst⟩

/-! ## What is bound -/

/-- What a coordinate leaves in a variable. An integer leaves itself; of other numbers nothing is said. -/
def Datum.Leaves (d : Datum) (n : Int) : Prop := ∀ k, d = .int k → n = k

theorem Datum.leaves_whole (d : Datum) : d.Leaves d.whole := by
  rintro k rfl
  rfl

/-- What some input is bound to, and the variables when the program goes on there. -/
inductive State.Binds (s : State) : Input → String → Variables → Prop where
  | click {x y : Datum} {r : MouseRegion} {a b : Int} : r ∈ s.bindings.mouse → r.covers x y = true →
      x.Leaves a → y.Leaves b → Binds s (.click x y) r.label ((s.vars.set r.varX a).set r.varY b)
  | code {code char : Datum} {ctrl : Bool} {e : Value × String} : e ∈ s.bindings.keyboard →
      code.codeKey? = some e.1 → Binds s (.key code char ctrl) e.2 s.vars
  | char {code char : Datum} {ctrl : Bool} {e : Value × String} : e ∈ s.bindings.keyboard → code.isScalar = true →
      char.charKey? ctrl = some e.1 → Binds s (.key code char ctrl) e.2 s.vars
  | menu {id : Datum} {i : MenuItem} {l : String} : i ∈ s.bindings.menu.items →
      id.codeKey? = some (.int i.id) → i.label = some l → Binds s (.menu id) l s.vars

/-- The parts of some input are of the kinds that it takes. -/
def Input.fits : Input → Bool
  | .click x y => x.isNumber && y.isNumber
  | .key code char _ => code.isScalar && char.isScalar
  | .menu id => id.isScalar
  | .timeout | .quit => true

/-- How many parts an event of some kind has. -/
def EventKind.takes : EventKind → Nat → Bool
  | .mouseClick, n => n = 2 || n = 3
  | .keyDown, n => n = 1 || n = 2 || n = 3
  | .menuSelect, n => n = 1
  | .timeout, n | .quit, n => n = 0
  | .other _, _ => true

theorem Event.read_eq_misfit {e : Event} (h : e.kind.takes e.params.length = false) : e.read = .misfit := by
  obtain ⟨kind, params⟩ := e
  unfold Event.read
  cases kind with
  | other name => cases h
  | timeout | quit =>
    rcases params with _ | ⟨a, rest⟩
    · cases h
    · rfl
  | menuSelect =>
    rcases params with _ | ⟨a, _ | ⟨b, rest⟩⟩
    · rfl
    · cases h
    · rfl
  | mouseClick =>
    rcases params with _ | ⟨a, _ | ⟨b, _ | ⟨c, _ | ⟨d, rest⟩⟩⟩⟩
    · rfl
    · rfl
    · cases h
    · cases h
    · rfl
  | keyDown =>
    rcases params with _ | ⟨a, _ | ⟨b, _ | ⟨c, _ | ⟨d, rest⟩⟩⟩⟩
    · rfl
    · cases h
    · cases h
    · cases h
    · rfl

/-! ## Going on at a label, or waiting on -/

namespace Engine

variable {σ : Type}

/-- An event takes a program to a label. Nothing but control, status and timeout and these variables has changed when
it runs on. -/
def Jumps (g : Engine) (h : Host σ) (fuel : Nat) (e : Event) (m : Machine σ) (label : String) (vars : Variables) : Prop :=
  ∃ t, g.program.labels.lookup (Text.upper label) = some t ∧
    g.resume h fuel e m = g.run h fuel ⟨{ m.state with pc := t, vars, status := .running, timeout := none }, m.world⟩

/-- An event changes nothing. It is refused only if its parts do not fit. -/
def Ignores (g : Engine) (h : Host σ) (fuel : Nat) (e : Event) (m : Machine σ) (fits : Bool) : Prop :=
  g.resume h fuel e m = (m, .ok ()) ∨ fits = false ∧ g.resume h fuel e m = (m, .error .misfit)

/-- An event jumps where a search says, and is ignored if the search finds nothing. -/
def Leads (g : Engine) (h : Host σ) (fuel : Nat) (e : Event) (m : Machine σ) (fits : Bool) :
    Option (String × Variables) → Prop
  | some (label, vars) => g.Jumps h fuel e m label vars
  | none => g.Ignores h fuel e m fits

variable {g : Engine} {h : Host σ} {m : Machine σ} {e : Event} {i : Input} {fuel : Nat}

section

variable (hwait : m.state.status = .suspended) (hread : e.read = .input i)

include hwait hread

theorem resume_of_react {s : State} (hreact : g.react m.state i = .ok (some s)) :
    g.resume h fuel e m = g.run h fuel ⟨s, m.world⟩ := by
  unfold resume
  rw [if_neg (by simp [hwait]), hread]
  cases i with
  | quit => cases hreact
  | _ => simp only [hreact]

theorem resume_of_react_none (hi : i ≠ .quit) (hreact : g.react m.state i = .ok none) :
    g.resume h fuel e m = (m, .ok ()) := by
  unfold resume
  rw [if_neg (by simp [hwait]), hread]
  cases i with
  | quit => exact absurd rfl hi
  | _ => simp only [hreact]

theorem resume_of_react_error {t : Trap} (hreact : g.react m.state i = .error t) :
    g.resume h fuel e m = (m, .error t) := by
  unfold resume
  rw [if_neg (by simp [hwait]), hread]
  cases i with
  | quit => cases hreact
  | _ => simp only [hreact]

end

theorem wakeAt_bound {s : State} {l : String} (hs : g.Sound m.state) (hl : l ∈ m.state.bindings.labels) :
    ∃ t, g.program.labels.lookup (Text.upper l) = some t ∧ g.wakeAt s (some l) = .ok (some (s.jump t).wake) := by
  obtain ⟨t, ht⟩ := Option.isSome_iff_exists.mp (hs.bound l hl)
  refine ⟨t, ht, ?_⟩
  simp only [wakeAt, Program.target, ht]
  rfl

section

variable (hs : g.Sound m.state) (hwait : m.state.status = .suspended)

include hs hwait

theorem resume_click {x y : Datum} (hread : e.read = .input (.click x y)) :
    g.Leads h fuel e m (x.isNumber && y.isNumber)
      (((m.state.bindings.mouse.filter (·.covers x y)).getLast?).map fun r =>
        (r.label, (m.state.vars.set r.varX x.whole).set r.varY y.whole)) := by
  rcases m.state.bindings.matchMouse_finds x y with hmatch | ⟨hmatch, hnone, hfits⟩
  · cases hfound : (m.state.bindings.mouse.filter (·.covers x y)).getLast? with
    | none =>
      rw [hfound] at hmatch
      exact .inl (resume_of_react_none hwait hread (by simp) (by simp only [react, hmatch]; rfl))
    | some r =>
      rw [hfound] at hmatch
      obtain ⟨t, ht, hwake⟩ := wakeAt_bound (s := (m.state.set r.varX x.whole).set r.varY y.whole) hs
        (Bindings.matchMouse_mem hmatch)
      exact ⟨t, ht, resume_of_react hwait hread (by simp only [react, hmatch]; exact hwake)⟩
  · rw [hnone]
    exact .inr ⟨hfits, resume_of_react_error hwait hread (by simp only [react, hmatch]; rfl)⟩

theorem leads_of_finds {r : Except Misfit (Option String)} {found : Option String} {fits : Bool}
    (hread : e.read = .input i) (hi : i ≠ .quit)
    (hreact : g.react m.state i = do g.wakeAt m.state (← r.mapError fun _ => .misfit))
    (hbound : ∀ l, r = .ok (some l) → l ∈ m.state.bindings.labels) (hfinds : Finds r found fits) :
    g.Leads h fuel e m fits (found.map fun l => (l, m.state.vars)) := by
  rcases hfinds with rfl | ⟨rfl, rfl, hfits⟩
  · cases found with
    | none => exact .inl (resume_of_react_none hwait hread hi hreact)
    | some l =>
      obtain ⟨t, ht, hwake⟩ := wakeAt_bound (s := m.state) hs (hbound l rfl)
      exact ⟨t, ht, resume_of_react hwait hread (hreact.trans hwake)⟩
  · exact .inr ⟨hfits, resume_of_react_error hwait hread hreact⟩

theorem resume_key {code char : Datum} {ctrl : Bool} (hread : e.read = .input (.key code char ctrl))
    (hcode : code.isScalar = true) :
    g.Leads h fuel e m char.isScalar
      (((code.codeKey?.bind m.state.bindings.keyboard.find?).or
        ((char.charKey? ctrl).bind m.state.bindings.keyboard.find?)).map fun l => (l, m.state.vars)) :=
  leads_of_finds hs hwait hread (by simp) rfl (fun _ => Bindings.matchKey_mem)
    (m.state.bindings.matchKey_finds hcode char ctrl)

theorem resume_menu {id : Datum} (hread : e.read = .input (.menu id)) (hmenu : m.state.bindings.menu.Numbered) :
    g.Leads h fuel e m id.isScalar
      (((id.index?.bind (m.state.bindings.menu.items[·]?)).bind (·.label)).map fun l => (l, m.state.vars)) :=
  leads_of_finds hs hwait hread (by simp) rfl (fun _ => Bindings.matchMenu_mem)
    (m.state.bindings.matchMenu_finds hmenu id)

end

theorem resume_unfit_key {code char : Datum} {ctrl : Bool} (hwait : m.state.status = .suspended)
    (hread : e.read = .input (.key code char ctrl)) (hcode : code.isScalar = false) :
    g.resume h fuel e m = (m, .error .misfit) :=
  resume_of_react_error hwait hread (by simp only [react, Bindings.matchKey_unfit _ hcode]; rfl)

/-! ## Steps and classes of bindings -/

theorem perform_separate {st : Statement} {i : Nat} (hst : g.program.statements[i]? = some st) :
    Separate g.program i m.state.bindings (g.perform h st m).1.state.bindings := by
  refine perform_state (P := fun s => Separate g.program i m.state.bindings s.bindings) (.refl _ _ _) fun pl hpl => ?_
  refine ⟨hpl.separate hst, fun reply s hs => ?_⟩
  rw [hpl.complete_bindings hs]
  exact hpl.separate hst

theorem step_separate (g : Engine) (h : Host σ) (m : Machine σ) :
    Separate g.program m.state.pc m.state.bindings (g.step h m).1.state.bindings := by
  rcases step_parts g h m with ⟨-, hstep⟩ | ⟨-, -, hstep⟩ | ⟨st, -, hst, hstep⟩ <;> rw [hstep]
  · exact .refl _ _ _
  · exact .refl _ _ _
  · have hsep := perform_separate (h := h) (m := g.entering h st m) hst
    rcases hr : g.perform h st (g.entering h st m) with ⟨m', _ | _ | _ | _ | _⟩ <;> rw [hr] at hsep <;> exact hsep

/-! ## Bound or not -/

/-- An event whose input may be bound: it jumps to what it is bound to, and else nothing changes. -/
def Obeys (g : Engine) (h : Host σ) (fuel : Nat) (e : Event) (m : Machine σ) (i : Input) : Prop :=
  (∃ label vars, m.state.Binds i label vars ∧ g.Jumps h fuel e m label vars) ∨
    (∀ label vars, ¬ m.state.Binds i label vars) ∧ g.Ignores h fuel e m i.fits

section

variable (hs : g.Sound m.state) (hwait : m.state.status = .suspended)

include hs hwait

theorem click_obeys {x y : Datum} (hread : e.read = .input (.click x y)) : g.Obeys h fuel e m (.click x y) := by
  have hleads : g.Leads h fuel e m _ _ := resume_click hs hwait hread
  cases hfound : (m.state.bindings.mouse.filter (·.covers x y)).getLast? with
  | some r =>
    rw [hfound] at hleads
    obtain ⟨hr, hcovers⟩ := List.mem_filter.mp (List.mem_of_getLast? hfound)
    exact .inl ⟨_, _, .click hr hcovers x.leaves_whole y.leaves_whole, hleads⟩
  | none =>
    rw [hfound] at hleads
    refine .inr ⟨?_, hleads⟩
    rintro _ _ ⟨hr, hcovers⟩
    have hempty := List.getLast?_eq_none_iff.mp hfound
    rw [List.filter_eq_nil_iff] at hempty
    exact hempty _ hr hcovers

theorem key_obeys {code char : Datum} {ctrl : Bool} (hread : e.read = .input (.key code char ctrl)) :
    g.Obeys h fuel e m (.key code char ctrl) := by
  have hcodes : ∀ v, code.codeKey? = some v → v.IsOwnKey := fun _ => Datum.isOwnKey_codeKey?
  have hchars : ∀ v, char.charKey? ctrl = some v → v.IsOwnKey := fun _ => Datum.isOwnKey_charKey?
  by_cases hcode : code.isScalar = true
  · have hleads : g.Leads h fuel e m _ _ := resume_key hs hwait hread hcode
    -- The code of the key comes first; only without a binding of it does the character count.
    cases hc : code.codeKey?.bind m.state.bindings.keyboard.find? with
    | some l =>
      rw [hc] at hleads
      obtain ⟨k, hk, hkey, rfl⟩ := KeyTable.bind_find?_eq_some hcodes hc
      exact .inl ⟨_, _, .code hk hkey, hleads⟩
    | none =>
      rw [hc, Option.none_or] at hleads
      cases ht : (char.charKey? ctrl).bind m.state.bindings.keyboard.find? with
      | some l =>
        rw [ht] at hleads
        obtain ⟨k, hk, hkey, rfl⟩ := KeyTable.bind_find?_eq_some hchars ht
        exact .inl ⟨_, _, .char hk hcode hkey, hleads⟩
      | none =>
        rw [ht] at hleads
        refine .inr ⟨?_, ?_⟩
        · intro label vars hb
          cases hb with
          | code hk hkey => simpa [hc] using KeyTable.bind_find?_isSome hcodes hk hkey
          | char hk _ hkey => simpa [ht] using KeyTable.bind_find?_isSome hchars hk hkey
        · simp only [Input.fits, hcode, Bool.true_and]
          exact hleads
  · rw [Bool.not_eq_true] at hcode
    refine .inr ⟨?_, .inr ⟨by simp [Input.fits, hcode], resume_unfit_key hwait hread hcode⟩⟩
    intro label vars hb
    cases hb with
    | code _ hkey =>
      cases code with
      | list _ | table _ => cases hkey
      | _ => cases hcode
    | char _ hscalar _ =>
      rw [hcode] at hscalar
      cases hscalar

theorem menu_obeys {id : Datum} (hread : e.read = .input (.menu id)) (hmenu : m.state.bindings.menu.Numbered) :
    g.Obeys h fuel e m (.menu id) := by
  have hleads : g.Leads h fuel e m _ _ := resume_menu hs hwait hread hmenu
  cases hfound : (id.index?.bind (m.state.bindings.menu.items[·]?)).bind (·.label) with
  | some l =>
    rw [hfound] at hleads
    obtain ⟨i, hi, hl⟩ := Option.bind_eq_some_iff.mp hfound
    obtain ⟨k, hk, hi⟩ := Option.bind_eq_some_iff.mp hi
    have hkey : id.codeKey? = some (.int i.id) := by
      rw [hmenu k i hi]
      exact Datum.index?_eq_some.mp hk
    exact .inl ⟨_, _, .menu (List.mem_of_getElem? hi) hkey hl, hleads⟩
  | none =>
    rw [hfound] at hleads
    refine .inr ⟨?_, hleads⟩
    rintro _ _ ⟨⟩
    rename_i i hi hkey hl
    obtain ⟨k, hk⟩ := List.getElem?_of_mem hi
    rw [hmenu k i hk] at hkey
    simp [Datum.index?_eq_some.mpr hkey, hk, hl] at hfound

theorem timeout_advances {n : Int} (hread : e.read = .input .timeout) (htimed : m.state.timeout = some n) :
    HasCommand g.program m.state.pc .waitInput ∧ g.resume h fuel e m =
      g.run h fuel ⟨{ m.state with pc := m.state.pc + 1, status := .running, timeout := none }, m.world⟩ := by
  obtain ⟨args, pos, hst, -⟩ := hs.waiting hwait
  refine ⟨⟨args, pos, hst⟩, resume_of_react hwait hread ?_⟩
  simp only [react, htimed]
  rfl

end

/-- What an event does, whatever it is and whenever it comes. -/
structure Framed (g : Engine) (h : Host σ) (fuel : Nat) (e : Event) (m : Machine σ) : Prop where
  idle : m.state.status ≠ .suspended → g.resume h fuel e m = (m, .ok ())
  unknown : m.state.status = .suspended → ∀ name, e.kind = .other name →
    ∃ record, g.resume h fuel e m = (⟨m.state, h.note record m.world⟩, .ok ())
  misfit : m.state.status = .suspended → e.kind.takes e.params.length = false →
    g.resume h fuel e m = (m, .error .misfit)
  input : m.state.status = .suspended → ∀ i, e.read = .input i → i ≠ .timeout → i ≠ .quit → g.Obeys h fuel e m i
  untimed : m.state.status = .suspended → e.read = .input .timeout → m.state.timeout = none →
    g.resume h fuel e m = (m, .ok ())
  timed : m.state.status = .suspended → e.read = .input .timeout → ∀ n, m.state.timeout = some n →
    HasCommand g.program m.state.pc .waitInput ∧ g.resume h fuel e m =
      g.run h fuel ⟨{ m.state with pc := m.state.pc + 1, status := .running, timeout := none }, m.world⟩
  quit : m.state.status = .suspended → e.read = .input .quit →
    g.resume h fuel e m = (⟨{ m.state with status := .terminated, timeout := none }, h.note shutDown m.world⟩, .ok ())

/-- Binds all three classes and then the mouse again. -/
def rebindingSource : String :=
  "SetMouse(0,0,9,9,A,x,y) SetKeyboard(65,A,65,B,\"q\",A) SetMenu(\"F\",IGNORE,\"G\",B,ENDPOPUP)\n" ++
  "SetMouse(9,n,2,0,B,u,v)\nA: B: WaitInput(5)"

theorem rebinding_waits : ∃ p, Program.parse rebindingSource false = .ok p ∧
    (after ⟨p, 3, false⟩ (.silent fun _ w => w) ⟨{}, ()⟩ [.assign "n" 7, .run 20]).state.status = .suspended ∧
    latest .setMouse
        (after ⟨p, 3, false⟩ (Host.silent fun _ w => w).recorded ⟨{}, ([], ())⟩ [.assign "n" 7, .run 20]).world.1 =
      [.int 9, .int 7, .int 2, .int 0, .label "B", .var "u", .var "v"] := by
  have hrun : (Program.parse rebindingSource false).toOption.map (fun p =>
      ((after ⟨p, 3, false⟩ (.silent fun _ w => w) ⟨{}, ()⟩ [.assign "n" 7, .run 20]).state.status,
        latest .setMouse
          (after ⟨p, 3, false⟩ (Host.silent fun _ w => w).recorded ⟨{}, ([], ())⟩ [.assign "n" 7, .run 20]).world.1)) =
      some (.suspended, [.int 9, .int 7, .int 2, .int 0, .label "B", .var "u", .var "v"]) := by decide +kernel
  obtain ⟨p, hp, hboth⟩ := Except.exists_of_map_toOption hrun
  exact ⟨p, hp, (Prod.mk.inj hboth).1, (Prod.mk.inj hboth).2⟩

/-! ## Every state of a run -/

section

variable {source : String} {pedantic : Bool} {p : Program}

theorem after_sound_and_recalls (hp : Program.parse source pedantic = .ok p) (maxStack : Int) (trace : Bool)
    (h : Host σ) (w : σ) (ops : List Op) :
    Sound ⟨p, maxStack, trace⟩ (after ⟨p, maxStack, trace⟩ h ⟨{}, w⟩ ops).state ∧
    (after ⟨p, maxStack, trace⟩ h ⟨{}, w⟩ ops).state.bindings.Recalls
      (after ⟨p, maxStack, trace⟩ h.recorded ⟨{}, ([], w)⟩ ops).world.1 := by
  obtain ⟨lines, hl, rfl⟩ := Program.parse_eq_ofLines hp
  have wf := Program.ofLines_wellFormed hl
  refine ⟨after_sound (g := ⟨.ofLines lines, maxStack, trace⟩) (h := h) (m := ⟨{}, w⟩) wf (sound_init _) ops, ?_⟩
  have hforget := after_forget (g := ⟨.ofLines lines, maxStack, trace⟩) (h := h) (m := ⟨{}, ([], w)⟩) ops
  have hstate := congrArg Machine.state hforget
  rw [Machine.forget_state] at hstate
  have hrecalls := after_remembers (g := ⟨.ofLines lines, maxStack, trace⟩) (h := h) (m := ⟨{}, ([], w)⟩) wf .init ops
  unfold Remembers at hrecalls
  rw [hstate] at hrecalls
  exact hrecalls

/-- A program that waits reacts to events as the last `SetMouse`, `SetKeyboard` and `SetMenu` on record say. -/
theorem resume_follows_latest (hp : Program.parse source pedantic = .ok p) (maxStack : Int) (trace : Bool)
    (h : Host σ) (w : σ) (ops : List Op)
    (hwait : (after ⟨p, maxStack, trace⟩ h ⟨{}, w⟩ ops).state.status = .suspended) :
    let g : Engine := ⟨p, maxStack, trace⟩
    let m := g.after h ⟨{}, w⟩ ops
    let record := (g.after h.recorded ⟨{}, ([], w)⟩ ops).world.1
    (∃ regions : List MouseRegion, latest .setMouse record = regions.flatMap MouseRegion.values ∧
      (∀ (fuel : Nat) (e : Event) (x y : Int), e.read = .input (.click (.int x) (.int y)) →
        g.Leads h fuel e m true
          (((regions.filter (·.covers (.int x) (.int y))).getLast?).map fun r =>
            (r.label, (m.state.vars.set r.varX x).set r.varY y))) ∧
      ∀ (fuel : Nat) (e : Event) (x y : Datum), e.read = .input (.click x y) →
        (x.isNumber && y.isNumber) = false → g.Ignores h fuel e m false) ∧
    (∃ keys : List (Value × String), latest .setKeyboard record = keys.flatMap keyValues ∧
      ∀ (fuel : Nat) (e : Event) (code char : Datum) (ctrl : Bool), e.read = .input (.key code char ctrl) →
        if code.isScalar then
          g.Leads h fuel e m char.isScalar
            (((keys.filter fun k => code.codeKey? = some k.1).getLast?.or
              (keys.filter fun k => char.charKey? ctrl = some k.1).getLast?).map fun k => (k.2, m.state.vars))
        else g.resume h fuel e m = (m, .error .misfit)) ∧
    (∃ menu : Menu, latest .setMenu record = menu.flatMap Popup.values ∧
      ∀ (fuel : Nat) (e : Event) (id : Datum), e.read = .input (.menu id) →
        g.Leads h fuel e m id.isScalar
          (((id.index?.bind (menu.items[·]?)).bind (·.label)).map fun l => (l, m.state.vars))) ∧
    ∀ m' : Machine σ, Separate p m'.state.pc m'.state.bindings (g.step h m').1.state.bindings := by
  intro g m record
  obtain ⟨hs, hrecalls⟩ := after_sound_and_recalls hp maxStack trace h w ops
  refine ⟨⟨m.state.bindings.mouse, hrecalls.mouse, ?_, ?_⟩, ?_, ⟨m.state.bindings.menu, hrecalls.menu, ?_⟩,
    step_separate g h⟩
  · intro fuel e x y hread
    exact resume_click hs hwait hread
  · intro fuel e x y hread hnot
    have hleads : g.Leads h fuel e m _ _ := resume_click hs hwait hread
    have hnone : m.state.bindings.mouse.filter (·.covers x y) = [] :=
      List.filter_eq_nil_iff.mpr fun r _ => by simp [MouseRegion.covers_of_not_number hnot]
    rw [hnot, hnone] at hleads
    exact hleads
  · obtain ⟨keys, hkeys, htable⟩ := hrecalls.keyboard
    refine ⟨keys, hkeys, fun fuel e code char ctrl hread => ?_⟩
    split
    · rename_i hcode
      have hleads : g.Leads h fuel e m _ _ := resume_key hs hwait hread hcode
      rw [htable, KeyTable.bind_find?_ofPairs fun _ => Datum.isOwnKey_codeKey?,
        KeyTable.bind_find?_ofPairs fun _ => Datum.isOwnKey_charKey?, ← Option.map_or, Option.map_map] at hleads
      exact hleads
    · rename_i hcode
      exact resume_unfit_key hwait hread (by simpa using hcode)
  · intro fuel e id hread
    exact resume_menu hs hwait hread hrecalls.numbered

theorem resume_follows_latest_rebound : ∃ p, Program.parse rebindingSource false = .ok p ∧
    (after ⟨p, 3, false⟩ (.silent fun _ w => w) ⟨{}, ()⟩ [.assign "n" 7, .run 20]).state.status = .suspended ∧
    Jumps ⟨p, 3, false⟩ (.silent fun _ w => w) 4 ⟨.mouseClick, [.int 3, .int 0]⟩
      (after ⟨p, 3, false⟩ (.silent fun _ w => w) ⟨{}, ()⟩ [.assign "n" 7, .run 20]) "B"
      (((after ⟨p, 3, false⟩ (.silent fun _ w => w) ⟨{}, ()⟩ [.assign "n" 7, .run 20]).state.vars.set "u" 3).set
        "v" 0) := by
  obtain ⟨p, hp, hwait, hlatest⟩ := rebinding_waits
  obtain ⟨⟨regions, hregions, hclick, -⟩, -⟩ := resume_follows_latest hp 3 false (.silent fun _ w => w) () _ hwait
  have hone := MouseRegion.ofArgs_flatMap_values regions
  rw [← hregions, hlatest] at hone
  obtain rfl : [⟨9, 7, 2, 0, "B", "u", "v"⟩] = regions := Except.ok.inj hone
  exact ⟨p, hp, hwait, hclick 4 ⟨.mouseClick, [.int 3, .int 0]⟩ _ _ rfl⟩

/-- Whatever event comes, nothing changes that it is not bound to change. -/
theorem resume_framed (hp : Program.parse source pedantic = .ok p) (maxStack : Int) (trace : Bool) (h : Host σ)
    (w : σ) (ops : List Op) (fuel : Nat) (e : Event) :
    Framed ⟨p, maxStack, trace⟩ h fuel e (after ⟨p, maxStack, trace⟩ h ⟨{}, w⟩ ops) := by
  obtain ⟨hs, hrecalls⟩ := after_sound_and_recalls hp maxStack trace h w ops
  generalize after ⟨p, maxStack, trace⟩ h ⟨{}, w⟩ ops = m at hs hrecalls
  constructor
  · intro hidle
    unfold resume
    rw [if_pos hidle]
  · intro hwait name hkind
    have hread : e.read = .unknown := by
      unfold Event.read
      rw [hkind]
    refine ⟨⟨.debug, "Ignoring unknown event " ++ e.describe⟩, ?_⟩
    unfold resume
    rw [if_neg (by simp [hwait]), hread]
  · intro hwait htakes
    unfold resume
    rw [if_neg (by simp [hwait]), Event.read_eq_misfit htakes]
  · intro hwait i hread htimeout hquit
    cases i with
    | click x y => exact click_obeys hs hwait hread
    | key code char ctrl => exact key_obeys hs hwait hread
    | menu id => exact menu_obeys hs hwait hread hrecalls.numbered
    | timeout => exact absurd rfl htimeout
    | quit => exact absurd rfl hquit
  · intro hwait hread huntimed
    refine resume_of_react_none hwait hread (by simp) ?_
    simp [react, huntimed]
  · intro hwait hread n htimed
    exact timeout_advances hs hwait hread htimed
  · intro hwait hread
    unfold resume
    rw [if_neg (by simp [hwait]), hread]
    rfl

theorem resume_framed_rebound : ∃ p, Program.parse rebindingSource false = .ok p ∧
    Framed ⟨p, 3, false⟩ (.silent fun _ w => w) 4 ⟨.timeout, []⟩
      (after ⟨p, 3, false⟩ (.silent fun _ w => w) ⟨{}, ()⟩ [.assign "n" 7, .run 20]) := by
  obtain ⟨p, hp, -⟩ := rebinding_waits
  exact ⟨p, hp, resume_framed hp 3 false _ () _ 4 ⟨.timeout, []⟩⟩

end

end Engine

end GraphicsBatch
