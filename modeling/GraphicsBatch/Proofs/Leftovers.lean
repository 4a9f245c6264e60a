import GraphicsBatch.Proofs.Deadlines

/-!
# What a program leaves at its host

Hosts outlive programs. A host keeps what it was told about input until it is told otherwise, and to load another program
tells it nothing. So a new program starts with what others have left there, and replaces it class by class.
-/

namespace GraphicsBatch

/-! ## Hosts that learn from what they answer -/

/-- What a host knows about input, if it keeps anything of the kind. -/
def Stage.registry (s : Stage) : Option Inputs := s.panel?.map Panel.inputs

section

variable {σ : Type}

/-- The same host, with a record of all requests it has answered, the latest at the end. -/
def Host.minuted (h : Host σ) : Host (List Request × σ) where
  call r w := ((h.call r w.2).1, if (h.call r w.2).1.isOk then w.1 ++ [r] else w.1, (h.call r w.2).2)
  note r w := (w.1, h.note r w.2)

/-- What the host knows comes from the requests that it answers. -/
structure Host.Learns (h : Host σ) (view : σ → Option Inputs) : Prop where
  note (r : Record) (w : σ) : view (h.note r w) = view w
  call (r : Request) (w : σ) : view (h.call r w).2 = if (h.call r w).1.isOk then (view w).map (·.after r) else view w

variable {h : Host σ}

theorem Inputs.after_if_answered {r : Request} {x : Except Signal Datum} (hears : r.binds = true → ∃ d, x = .ok d)
    (k : Inputs) : some (k.after r) = if x.isOk then (some k).map (·.after r) else some k := by
  cases hbinds : r.binds with
  | true =>
    obtain ⟨d, rfl⟩ := hears hbinds
    rfl
  | false =>
    simp only [Option.map_some, after_of_not_binds hbinds, ite_self]

end

theorem Stage.learns : Stage.host.Learns Stage.registry where
  note r s := by cases s <;> rfl
  call r s := by
    cases s with
    | empty | scripted => exact (ite_self _).symm
    | panel p =>
      refine .trans (congrArg some (Panel.call_inputs r p)) ?_
      exact Inputs.after_if_answered (fun hbinds => Panel.call_hears hbinds p) _
    | headless h =>
      by_cases hr : r.Written
      · refine .trans (congrArg some (Headless.attends.call h hr)) ?_
        exact Inputs.after_if_answered (Headless.attends.hears h hr) _
      · -- Arguments that cannot be written down keep the command from being logged, and from being carried out.
        cases r with
        | forward c args =>
          cases hargs : Value.allWritten args with
          | ok texts => exact absurd ⟨texts, hargs⟩ hr
          | error f =>
            simp only [host, frontend, call, lift, Headless.call, Headless.forward, hargs]
            rfl
        | _ => exact absurd trivial hr
    | window w =>
      refine .trans (congrArg some (Window.call_effect r w).inputs) ?_
      exact Inputs.after_if_answered (fun hbinds => Window.call_hears hbinds w) _

/-! ## Hosts over time -/

section

variable {ι σ : Type}

/-- The record accounts for all that the host has learnt. -/
theorem Host.Learns.minuted {h : Host σ} {view : σ → Option Inputs} (hh : h.Learns view) {k : Option Inputs}
    {w w' : List Request × σ} (hw : view w.2 = k.map fun k => w.1.foldl Inputs.after k)
    (hfollows : h.minuted.Follows w w') :
    view w'.2 = k.map fun k => w'.1.foldl Inputs.after k := by
  induction hfollows with
  | refl => exact hw
  | @call w' r _ ih =>
    simp only [Host.minuted, hh.call, ih]
    split
    · simp only [Option.map_map, List.foldl_append]
      rfl
    · rfl
  | note r _ ih => exact (hh.note r _).trans ih

variable [DecidableEq ι]

theorem Host.Follows.beside {h : Host σ} {i : ι} {w w' : ι → σ} (hfollows : (h.beside i).Follows w w') (j : ι) :
    h.Follows (w j) (w' j) := by
  induction hfollows with
  | refl => exact .refl
  | @call w' r _ ih =>
    by_cases hj : j = i
    · subst hj
      simpa only [Host.beside, Function.update_self] using ih.call r
    · simpa only [Host.beside, Function.update_of_ne hj] using ih
  | @note w' r _ ih =>
    by_cases hj : j = i
    · subst hj
      simpa only [Host.beside, Function.update_self] using ih.note r
    · simpa only [Host.beside, Function.update_of_ne hj] using ih

end

namespace Session

variable {ι σ : Type}

theorem noteAll_follows (h : Host σ) (notes : List Record) (w : σ) : h.Follows w (noteAll h notes w) := by
  suffices hall : ∀ w', h.Follows w w' → h.Follows w (noteAll h notes w') from hall w .refl
  induction notes with
  | nil => exact fun _ hw => hw
  | cons r notes ih => exact fun w' hw => ih _ (hw.note r)

theorem load_follows (s : Session) (h : Host σ) (source : Source) (w : σ) : h.Follows w (s.load h source w).2.2 := by
  unfold load
  generalize source.parse s.pedantic = x
  obtain ⟨_ | p, notes⟩ := x <;> exact noteAll_follows h notes w

theorem withRun_follows {ε : Type} {h : Host σ} {s : Session} {w : σ} {fault : ε → RunFault}
    {act : Engine → Machine σ → Machine σ × Except ε Unit}
    (hact : ∀ g m, h.Follows w m.world → h.Follows w (act g m).1.world) : h.Follows w (s.withRun w fault act).2.2 := by
  unfold withRun
  split
  · rename_i p state _ _
    have hm := hact ⟨p, s.maxStack, s.trace⟩ ⟨state, w⟩ .refl
    dsimp only
    generalize act ⟨p, s.maxStack, s.trace⟩ ⟨state, w⟩ = x at hm
    obtain ⟨m, _ | _⟩ := x <;> exact hm
  · exact .refl

theorem Desk.perform_follows (hosts : ι → Host σ) (d : Desk ι σ) (move : Move ι) :
    (hosts d.host).Follows d.world (d.perform hosts move).2.world := by
  have hengine := fun g => Engine.preserves_follows g (hosts d.host) d.world
  cases move with
  | load source => exact load_follows _ _ source _
  | loadFile files path =>
    simp only [perform, loadFile]
    split
    · exact load_follows _ _ _ _
    · exact .refl
  | run fuel => exact withRun_follows fun g m hm => (hengine g).run fuel hm
  | step => exact withRun_follows fun g m hm => (hengine g).step hm
  | resume fuel e => exact withRun_follows fun g m hm => (hengine g).resume fuel e hm
  | set name value =>
    simp only [perform]
    split <;> exact .refl
  | _ => exact .refl

theorem Desk.after_follows [DecidableEq ι] {h : Host σ} (d : Desk ι (ι → σ)) (moves : List (Move ι)) (i : ι) :
    h.Follows (d.world i) ((d.after h.beside moves).world i) := by
  induction moves generalizing d with
  | nil => exact .refl
  | cons move moves ih => exact ((perform_follows h.beside d move).beside i).trans (ih _)

end Session

/-! ## Programs and what they find -/

namespace Inputs

/-- What is known before anything is bound. -/
def initial : Inputs := ⟨[], [], [], .text "NULL"⟩

/-- The host holds what the program knows, or else still what it held before, of which the program knows nothing. -/
def Trails {α : Type} (initial stale known held : α) : Prop := held = known ∨ (known = initial ∧ held = stale)

/-- Class by class, a host that held `stale` when the program was loaded has caught up with it or has not been told of
the class. -/
structure Lags (stale known held : Inputs) : Prop where
  mouse : Trails initial.mouse stale.mouse known.mouse held.mouse
  keyboard : Trails initial.keyboard stale.keyboard known.keyboard held.keyboard
  menu : Trails initial.menu stale.menu known.menu held.menu
  waitMode : Trails initial.waitMode stale.waitMode known.waitMode held.waitMode

namespace Lags

variable {stale known held : Inputs}

theorem start (stale : Inputs) : Lags stale initial stale :=
  ⟨.inr ⟨rfl, rfl⟩, .inr ⟨rfl, rfl⟩, .inr ⟨rfl, rfl⟩, .inr ⟨rfl, rfl⟩⟩

theorem forward (hl : Lags stale known held) (c : Command) (args : List Value) :
    Lags stale (known.after (.forward c args)) (held.after (.forward c args)) := by
  simp only [after]
  cases Instruction.ofCall? c args with
  | none => exact hl
  | some i =>
    cases i with
    | setMouse => exact { hl with mouse := .inl rfl }
    | setKeyboard => exact { hl with keyboard := .inl rfl }
    | setMenu => exact { hl with menu := .inl rfl }
    | setWaitMode mode => exact { hl with waitMode := .inl rfl }
    | _ => exact hl

end Lags

end Inputs

/-- A statement that binds anything replaces all of its class. -/
theorem Planned.lags {p : Program} {maxStack : Int} {s : State} {a : Action} {pl : Plan} (h : Planned p maxStack s a pl)
    (hproper : a.Proper) {stale held : Inputs} (hl : Inputs.Lags stale s.inputs held) :
    Inputs.Lags stale pl.prepared.inputs (pl.requests.foldl Inputs.after held) := by
  rcases h.inputs hproper with ⟨hsilent, hsame⟩ | ⟨-, htold⟩
  · rwa [hsame, Inputs.foldl_of_not_binds hsilent]
  rw [htold]
  cases h with
  | setMouse _ =>
    simp only [Plan.asking, List.foldl_cons, Inputs.foldl_bindMouse]
    exact { hl with mouse := .inl rfl }
  | setKeyboard _ _ =>
    simp only [Plan.asking, List.foldl_cons, Inputs.foldl_bindKey]
    exact { hl with keyboard := .inl rfl }
  | setMenu _ => exact { hl with menu := .inl rfl }
  | plain _ | messageBox _ | wait _ | setWaitMode _ | forward _ => exact hl.forward _ _
  | _ => exact hl

namespace Engine

variable {σ : Type} {g : Engine} {h : Host σ} {view : σ → Inputs}

theorem preserves_lags (hg : g.program.WellFormed) (hh : h.Attends view) (hanswers : h.Answers InReach) (stale : Inputs) :
    g.Preserves h fun m => m.state.Near ∧ Inputs.Lags stale m.state.inputs (view m.world) where
  place pos hm := ⟨(preserves_near hg hanswers).place pos hm.1, hm.2⟩
  note {m} r hm := ⟨hm.1, by rw [hh.note]; exact hm.2⟩
  terminate hm := ⟨(preserves_near hg hanswers).terminate hm.1, hm.2⟩
  perform {m st} hrun hst hm := by
    refine ⟨(preserves_near hg hanswers).perform hrun hst hm.1, ?_⟩
    rcases perform_told hg hh hst hm.1 with ⟨hworld, hstate⟩ | ⟨pl, hplanned, hworld, hstate⟩
    · rw [hworld, hstate]
      exact hm.2
    · rw [hworld, hstate]
      exact hplanned.lags (hg.proper _ st hst) hm.2
  react {m i s} hreact hm := by
    refine ⟨(preserves_near hg hanswers).react hreact hm.1, ?_⟩
    rcases react_cases hreact with ⟨x, y, r, t, -, -, rfl⟩ | ⟨t, rfl⟩ <;> exact hm.2

theorem after_lags (hg : g.program.WellFormed) (hh : h.Attends view) (hanswers : h.Answers Fits) {into : σ → Stage}
    (hinto : Host.Maps into h Stage.host) (hview : ∀ w, (into w).registry = some (view w)) (w : σ) {ops : List Op}
    (hops : ∀ op ∈ ops, op.drives = true) :
    ∃ held, (g.after Stage.host ⟨{}, into w⟩ ops).world.registry = some held ∧
      Inputs.Lags (view w) (g.after Stage.host ⟨{}, into w⟩ ops).state.inputs held := by
  have hafter := hinto.after g ⟨{}, w⟩ ops
  have hlags := (preserves_lags hg hh (hanswers.mono .of_fits) (view w)).after (m := ⟨{}, w⟩) hops
    ⟨.init, .start (view w)⟩
  simp only [Machine.map] at hafter
  rw [hafter]
  exact ⟨_, hview _, hlags.2⟩

/-- Whatever a program finds at its host, it replaces class by class. -/
theorem after_registry (hg : g.program.WellFormed) {s : Stage} {stale : Inputs} (hs : s.registry = some stale)
    {ops : List Op} (hops : ∀ op ∈ ops, op.drives = true) :
    ∃ held, (g.after Stage.host ⟨{}, s⟩ ops).world.registry = some held ∧
      Inputs.Lags stale (g.after Stage.host ⟨{}, s⟩ ops).state.inputs held := by
  cases s with
  | empty | scripted => cases hs
  | panel p =>
    cases hs
    exact after_lags hg Panel.attends Panel.answers ⟨fun _ _ => rfl, fun _ _ => rfl⟩ (fun _ => rfl) p hops
  | headless h =>
    cases hs
    exact after_lags hg Headless.attends Headless.answers ⟨fun _ _ => rfl, fun _ _ => rfl⟩ (fun _ => rfl) h hops
  | window w =>
    cases hs
    exact after_lags hg Window.attends Window.answers ⟨fun _ _ => rfl, fun _ _ => rfl⟩ (fun _ => rfl) w hops

end Engine

/-! ## Sessions -/

theorem Source.wellFormed_of_parse {source : Source} {pedantic : Bool} {p : Program} {notes : List Record}
    (h : source.parse pedantic = (.ok p, notes)) : p.WellFormed := by
  obtain ⟨lines, hlines, rfl⟩ := Program.parse_eq_ofLines (Source.parse_eq_ok h)
  exact Program.ofLines_wellFormed hlines

namespace Session

variable {ι σ : Type}

/-- Operations of a session as operations on its run. -/
def Move.op? : Move ι → Option Op
  | .run fuel => some (.run fuel)
  | .step => some .step
  | .resume fuel e he => some (.resume fuel e he)
  | _ => none

theorem withRun_eq {ε : Type} {s : Session} {p : Program} {state : State} (hp : s.program = some p)
    (hstate : s.state = some state) (w : σ) (fault : ε → RunFault)
    (act : Engine → Machine σ → Machine σ × Except ε Unit) :
    let m := (act ⟨p, s.maxStack, s.trace⟩ ⟨state, w⟩).1
    (s.withRun w fault act).2 = ({ s with state := some m.state }, m.world) := by
  simp only [withRun, hp, hstate]
  rcases act ⟨p, s.maxStack, s.trace⟩ ⟨state, w⟩ with ⟨m, _ | _⟩ <;> rfl

theorem Desk.after_drives (hosts : ι → Host σ) {d : Desk ι σ} {p : Program} {state : State} (hp : d.session.program = some p)
    (hstate : d.session.state = some state) {moves : List (Move ι)} (hmoves : ∀ move ∈ moves, move.drives = true) :
    let m := (⟨p, d.session.maxStack, d.session.trace⟩ : Engine).after (hosts d.host) ⟨state, d.world⟩
      (moves.filterMap Move.op?)
    d.after hosts moves = ⟨{ d.session with state := some m.state }, d.host, m.world⟩ := by
  induction moves generalizing d state with
  | nil =>
    simp only [after, List.foldl_nil, List.filterMap_nil, Engine.after, ← hstate]
  | cons move moves ih =>
    have hrest : ∀ move ∈ moves, move.drives = true := fun move' hmove' => hmoves _ (List.mem_cons_of_mem _ hmove')
    have hmove := hmoves move List.mem_cons_self
    simp only [after, List.foldl_cons]
    cases move with
    | run fuel =>
      simp only [perform, take, Session.run, withRun_eq hp hstate]
      exact ih hp rfl hrest
    | step =>
      simp only [perform, take, Session.step, withRun_eq hp hstate]
      exact ih hp rfl hrest
    | resume fuel e =>
      simp only [perform, take, Session.resume, withRun_eq hp hstate]
      exact ih hp rfl hrest
    | _ => cases hmove

theorem load_eq_ok {h : Host σ} {s s' : Session} {source : Source} {w w' : σ} {p : Program}
    (hload : s.load h source w = (.ok p, s', w')) :
    ∃ notes, source.parse s.pedantic = (.ok p, notes) ∧ s' = { s with program := some p, state := some {} } ∧
      w' = noteAll h notes w := by
  unfold load at hload
  generalize source.parse s.pedantic = x at hload
  obtain ⟨_ | p, notes⟩ := x
  · cases hload
  · cases hload
    exact ⟨notes, rfl, rfl, rfl⟩

variable [DecidableEq ι]

theorem noteAll_registry (i j : ι) (notes : List Record) (w : ι → List Request × Stage) :
    (noteAll (Stage.host.minuted.beside i) notes w j).1 = (w j).1 ∧
      (noteAll (Stage.host.minuted.beside i) notes w j).2.registry = (w j).2.registry := by
  induction notes generalizing w with
  | nil => exact ⟨rfl, rfl⟩
  | cons r notes ih =>
    obtain ⟨hrecord, hregistry⟩ := ih ((Stage.host.minuted.beside i).note r w)
    refine ⟨hrecord.trans ?_, hregistry.trans ?_⟩ <;> by_cases hj : j = i
    · simp only [Host.beside, hj, Function.update_self, Host.minuted]
    · simp only [Host.beside, Function.update_of_ne hj]
    · simp only [Host.beside, hj, Function.update_self, Host.minuted, Stage.learns.note]
    · simp only [Host.beside, Function.update_of_ne hj]

/-- To load a program leaves its host as it is; the program replaces class by class what it finds there. -/
theorem Desk.load_keeps_registry {d₀ : Desk ι (ι → List Request × Stage)} (hd₀ : ∀ i, (d₀.world i).1 = [])
    (moves : List (Move ι)) :
    let d := d₀.after Stage.host.minuted.beside moves
    (∀ i, (d.world i).2.registry = (d₀.world i).2.registry.map fun k => (d.world i).1.foldl Inputs.after k) ∧
    ∀ (source : Source) (p : Program) (d' : Desk ι (ι → List Request × Stage)),
      d.perform Stage.host.minuted.beside (.load source) = (.ok (.program p), d') →
      d'.session.program = some p ∧ d'.session.state = some {} ∧
      (∀ i, (d'.world i).1 = (d.world i).1 ∧ (d'.world i).2.registry = (d.world i).2.registry) ∧
      ∀ stale, (d.world d.host).2.registry = some stale → ∀ driven : List (Move ι), (∀ move ∈ driven, move.drives = true) →
        let d'' := d'.after Stage.host.minuted.beside driven
        ∃ s held, d''.session.state = some s ∧ (d''.world d.host).2.registry = some held ∧
          Inputs.Lags stale s.inputs held := by
  intro d
  refine ⟨fun i => ?_, fun source p d' hload => ?_⟩
  · refine Stage.learns.minuted (w := d₀.world i) ?_ (after_follows d₀ moves i)
    simp [hd₀]
  · simp only [perform, take, Prod.mk.injEq] at hload
    obtain ⟨hresult, rfl⟩ := hload
    generalize hx : d.session.load (Stage.host.minuted.beside d.host) source d.world = x at hresult
    obtain ⟨_ | p', s', w'⟩ := x <;> cases hresult
    obtain ⟨notes, hparse, rfl, rfl⟩ := load_eq_ok hx
    have hkept := fun i => noteAll_registry d.host i notes d.world
    refine ⟨rfl, rfl, hkept, fun stale hstale driven hdriven => ?_⟩
    have hmaps : Host.Maps (fun w => (w d.host).2) (Stage.host.minuted.beside d.host) Stage.host := by
      refine ⟨fun r w => ?_, fun r w => ?_⟩ <;> simp only [Host.beside, Function.update_self] <;> rfl
    have hops : ∀ op ∈ driven.filterMap Move.op?, op.drives = true := by
      intro op hop
      obtain ⟨move, -, hmove⟩ := List.mem_filterMap.mp hop
      cases move <;> cases hmove <;> rfl
    rw [after_drives _ rfl rfl hdriven]
    have hafter := hmaps.after ⟨p, d.session.maxStack, d.session.trace⟩
      ⟨{}, noteAll (Stage.host.minuted.beside d.host) notes d.world⟩ (driven.filterMap Move.op?)
    obtain ⟨held, hheld, hlags⟩ := Engine.after_registry (g := ⟨p, d.session.maxStack, d.session.trace⟩)
      (Source.wellFormed_of_parse hparse) ((hkept d.host).2.trans hstale) hops
    simp only [Machine.map] at hafter
    rw [hafter] at hheld hlags
    exact ⟨_, held, rfl, hheld, hlags⟩

/-- The second program binds its own keys, but waits in the mode that the first one set. -/
theorem Desk.load_keeps_registry_focus :
    let d₀ : Desk Unit (Unit → List Request × Stage) := ⟨{}, (), fun _ => ([], .panel { world := {} })⟩
    let d := d₀.after Stage.host.minuted.beside [.load (.text "SetWaitMode(FOCUS)"), .run 9]
    let stale := { Inputs.initial with waitMode := .text "FOCUS" }
    ∃ p d', d.perform Stage.host.minuted.beside (.load (.text "a: SetKeyboard(\"b\",a) WaitInput(5)")) =
        (.ok (.program p), d') ∧
      (d.world ()).2.registry = some stale ∧
      ∃ s held, (d'.after Stage.host.minuted.beside [.step, .step, .step]).session.state = some s ∧
        ((d'.after Stage.host.minuted.beside [.step, .step, .step]).world ()).2.registry = some held ∧
        Inputs.Lags stale s.inputs held := by
  intro d₀ d stale
  have hstale : (d.world ()).2.registry = some stale := by decide +kernel
  have hload : (d.session.load (Stage.host.minuted.beside d.host) (.text "a: SetKeyboard(\"b\",a) WaitInput(5)")
      d.world).1.toOption.map (fun _ => ()) = some () := by decide +kernel
  obtain ⟨p, hp, -⟩ := Except.exists_of_map_toOption hload
  have hx : d.perform Stage.host.minuted.beside (.load (.text "a: SetKeyboard(\"b\",a) WaitInput(5)")) =
      (.ok (.program p), (d.perform Stage.host.minuted.beside (.load (.text "a: SetKeyboard(\"b\",a) WaitInput(5)"))).2) :=
    Prod.ext (congrArg (Except.map Answer.program) hp) rfl
  have hd₀ : ∀ i, (d₀.world i).1 = [] := fun _ => rfl
  have hkeeps := (Desk.load_keeps_registry hd₀ [.load (.text "SetWaitMode(FOCUS)"), .run 9]).2 _ p _ hx
  exact ⟨p, _, hx, hstale, hkeeps.2.2.2 stale hstale [.step, .step, .step] (by simp [Move.drives])⟩

/-- Right after a program is loaded, its host has the wait mode of the one before. -/
theorem Desk.load_leaves_waitMode :
    let d := (⟨{}, (), .panel { world := {} }⟩ : Desk Unit Stage).after (fun _ => Stage.host)
      [.load (.text "SetWaitMode(FOCUS)"), .run 9]
    let x := d.perform (fun _ => Stage.host) (.load (.text "WaitInput(5)"))
    x.1.isOk = true ∧ x.2.session.state.map (·.inputs) = some Inputs.initial ∧
      x.2.world.registry = some { Inputs.initial with waitMode := .text "FOCUS" } := by
  decide +kernel

end Session

end GraphicsBatch
