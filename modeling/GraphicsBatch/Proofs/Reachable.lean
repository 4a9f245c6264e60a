import GraphicsBatch.Proofs.Matching
import GraphicsBatch.Proofs.Parsed
import GraphicsBatch.Proofs.Planned

/-!
# What holds in every state of a run

A run is driven from outside by steps, runs, events and assignments, in any order and against any host. What every
statement and every event preserves holds after any sequence of steps, runs and events. Whatever they do, control
stays in the program, waits are waits of a `WaitInput`, and all labels that are bound lead somewhere.
-/

namespace GraphicsBatch

theorem CallStack.pop?_eq_some {c c' : CallStack} {t : Nat} (h : c.pop? = some (t, c')) :
    c.frames = t :: c'.frames := by
  unfold CallStack.pop? at h
  split at h
  · cases h
  · rename_i hframes
    cases h
    exact hframes

theorem Except.mapError_eq_ok {ε δ α : Type} {x : Except ε α} {f : ε → δ} {a : α} :
    x.mapError f = .ok a ↔ x = .ok a := by
  cases x <;> simp [Except.mapError]

/-- What can be done to a run from outside. Variables hold integers, so clicks are at integers. -/
inductive Op where
  | step
  | run (fuel : Nat)
  | resume (fuel : Nat) (e : Event) (integral : e.isIntegral = true)
  | assign (name : String) (value : Int)

/-- Steps, runs and events, but no assignments from outside. -/
def Op.drives : Op → Bool
  | .assign .. => false
  | _ => true

namespace Engine

variable {σ : Type}

def apply (g : Engine) (h : Host σ) (m : Machine σ) : Op → Machine σ × Except Trap Unit
  | .step => g.step h m
  | .run fuel => g.run h fuel m
  | .resume fuel e _ => g.resume h fuel e m
  | .assign name value => (⟨m.state.set name value, m.world⟩, .ok ())

/-- The run after some operations, whatever they raised. -/
def after (g : Engine) (h : Host σ) (m : Machine σ) (ops : List Op) : Machine σ :=
  ops.foldl (fun m op => (g.apply h m op).1) m

/-! ### The parts of a step -/

/-- The run when a statement is about to be carried out. -/
def entering (g : Engine) (h : Host σ) (st : Statement) (m : Machine σ) : Machine σ where
  state := { m.state with lastPos := some st.pos }
  world := if g.trace then h.note ⟨.debug, "[" ++ st.pos.render ++ "] " ++ st.render⟩ m.world else m.world

/-- How a step ends when its statement is done with. -/
def conclude (h : Host σ) (pos : Position) : Machine σ × Option Halt → Machine σ × Except Trap Unit
  | (m, none) => (m, .ok ())
  | (m, some .exit) => (⟨m.state.terminate, h.note shutDown m.world⟩, .ok ())
  | (m, some (.error e)) => (⟨m.state.terminate, m.world⟩, .error (.error (e.locate pos)))
  | (m, some .interrupt) => (m, .error .interrupt)
  | (m, some (.conversion f)) => (m, .error (.conversion f))

theorem step_eq_conclude {g : Engine} {h : Host σ} {m : Machine σ} {st : Statement}
    (hrun : m.state.status = .running) (hst : g.program.statements[m.state.pc]? = some st) :
    g.step h m = conclude h st.pos (g.perform h st (g.entering h st m)) := by
  unfold step
  rw [if_neg (by simp [hrun]), hst]
  generalize hr : g.perform h st (g.entering h st m) = r
  unfold entering at hr
  simp only [hr]
  rcases r with ⟨m', _ | _ | _ | _ | _⟩ <;> rfl

/-- A step does nothing, ends the run behind the last statement, or carries a statement out. -/
theorem step_parts (g : Engine) (h : Host σ) (m : Machine σ) :
    (m.state.status ≠ .running ∧ g.step h m = (m, .ok ())) ∨
      (m.state.status = .running ∧ g.program.statements[m.state.pc]? = none ∧
        g.step h m = (⟨m.state.terminate, m.world⟩, .ok ())) ∨
      ∃ st, m.state.status = .running ∧ g.program.statements[m.state.pc]? = some st ∧
        g.step h m = conclude h st.pos (g.perform h st (g.entering h st m)) := by
  by_cases hrun : m.state.status = .running
  · cases hst : g.program.statements[m.state.pc]? with
    | none => exact .inr (.inl ⟨hrun, rfl, by simp only [step, hrun, hst, ne_eq, not_true, if_false]⟩)
    | some st => exact .inr (.inr ⟨st, hrun, rfl, step_eq_conclude hrun hst⟩)
  · exact .inl ⟨hrun, if_pos hrun⟩

theorem step_eq_error {g : Engine} {h : Host σ} {m m' : Machine σ} {e : ProgramError}
    (hstep : g.step h m = (m', .error (.error e))) :
    ∃ st m₁ e₁, g.program.statements[m.state.pc]? = some st ∧
      g.perform h st (g.entering h st m) = (m₁, some (.error e₁)) ∧
      m' = ⟨m₁.state.terminate, m₁.world⟩ ∧ e = e₁.locate st.pos := by
  rcases step_parts g h m with ⟨-, heq⟩ | ⟨-, -, heq⟩ | ⟨st, -, hst, heq⟩ <;> rw [hstep] at heq
  · cases heq
  · cases heq
  · rcases hp : g.perform h st (g.entering h st m) with ⟨m₁, _ | _ | _ | e₁ | _⟩ <;> rw [hp] at heq <;> cases heq
    exact ⟨st, m₁, e₁, hst, hp, rfl, rfl⟩

/-! ### The parts of an event -/

/-- How an event comes out, by what it is and what it is bound to. -/
inductive Resumed (g : Engine) (h : Host σ) (fuel : Nat) (e : Event) (m : Machine σ) :
    Machine σ × Except Trap Unit → Prop where
  | idle : m.state.status ≠ .suspended → Resumed g h fuel e m (m, .ok ())
  | unknown : m.state.status = .suspended → e.read = .unknown →
      Resumed g h fuel e m (⟨m.state, h.note ⟨.debug, "Ignoring unknown event " ++ e.describe⟩ m.world⟩, .ok ())
  | misfit : m.state.status = .suspended → e.read = .misfit → Resumed g h fuel e m (m, .error .misfit)
  | quit : m.state.status = .suspended → e.read = .input .quit →
      Resumed g h fuel e m (⟨m.state.terminate, h.note shutDown m.world⟩, .ok ())
  | woken {i : Input} {s : State} : m.state.status = .suspended → e.read = .input i →
      g.react m.state i = .ok (some s) → Resumed g h fuel e m (g.run h fuel ⟨s, m.world⟩)
  | unbound {i : Input} : m.state.status = .suspended → e.read = .input i → g.react m.state i = .ok none →
      Resumed g h fuel e m (m, .ok ())
  | refused {i : Input} {t : Trap} : m.state.status = .suspended → e.read = .input i →
      g.react m.state i = .error t → Resumed g h fuel e m (m, .error t)

theorem resumed (g : Engine) (h : Host σ) (fuel : Nat) (e : Event) (m : Machine σ) :
    Resumed g h fuel e m (g.resume h fuel e m) := by
  unfold resume
  split
  · rename_i hidle
    exact .idle hidle
  · rename_i hwait
    have hwait : m.state.status = .suspended := by simpa using hwait
    split
    · rename_i hread
      exact .unknown hwait hread
    · rename_i hread
      exact .misfit hwait hread
    · rename_i hread
      exact .quit hwait hread
    · rename_i hread
      split
      · rename_i hreact
        exact .woken hwait hread hreact
      · rename_i hreact
        exact .unbound hwait hread hreact
      · rename_i hreact
        exact .refused hwait hread hreact

/-! ## From one statement to a run -/

/-- What statements, the log and the end of a run leave as it is. -/
structure Carries (g : Engine) (h : Host σ) (P : Machine σ → Prop) : Prop where
  place {m : Machine σ} (pos : Option Position) : P m → P ⟨{ m.state with lastPos := pos }, m.world⟩
  note {m : Machine σ} (r : Record) : P m → P ⟨m.state, h.note r m.world⟩
  terminate {m : Machine σ} : P m → P ⟨m.state.terminate, m.world⟩
  perform {m : Machine σ} {st : Statement} : m.state.status = .running → g.program.statements[m.state.pc]? = some st →
    P m → P (g.perform h st m).1

/-- What events leave as it is, too. -/
structure Preserves (g : Engine) (h : Host σ) (P : Machine σ → Prop) : Prop extends Carries g h P where
  react {m : Machine σ} {i : Input} {s : State} : g.react m.state i = .ok (some s) → P m → P ⟨s, m.world⟩

namespace Carries

variable {g : Engine} {h : Host σ} {P : Machine σ → Prop} (hP : g.Carries h P) {m : Machine σ}

include hP

theorem conclude {pos : Position} {r : Machine σ × Option Halt} (hr : P r.1) : P (Engine.conclude h pos r).1 := by
  obtain ⟨m, _ | _ | _ | _ | _⟩ := r
  · exact hr
  · exact hP.note shutDown (hP.terminate hr)
  · exact hr
  · exact hP.terminate hr
  · exact hr

theorem entering {st : Statement} (hm : P m) : P (g.entering h st m) := by
  unfold Engine.entering
  split
  · exact hP.place _ (hP.note _ hm)
  · exact hP.place _ hm

theorem step (hm : P m) : P (g.step h m).1 := by
  rcases step_parts g h m with ⟨-, hstep⟩ | ⟨-, -, hstep⟩ | ⟨st, hrun, hst, hstep⟩ <;> rw [hstep]
  · exact hm
  · exact hP.terminate hm
  · exact hP.conclude (hP.perform hrun hst (hP.entering hm))

theorem run (fuel : Nat) (hm : P m) : P (g.run h fuel m).1 := by
  induction fuel generalizing m with
  | zero => exact hm
  | succ fuel ih =>
    have hstep := hP.step hm
    unfold Engine.run
    split
    · exact hm
    · generalize g.step h m = r at hstep ⊢
      obtain ⟨m', _ | _⟩ := r
      · exact hstep
      · exact ih hstep

end Carries

namespace Preserves

variable {g : Engine} {h : Host σ} {P : Machine σ → Prop} (hP : g.Preserves h P) {m : Machine σ}

include hP

theorem resume (fuel : Nat) (e : Event) (hm : P m) : P (g.resume h fuel e m).1 := by
  have hresumed := resumed g h fuel e m
  generalize g.resume h fuel e m = r at hresumed
  cases hresumed with
  | unknown _ _ => exact hP.note _ hm
  | quit _ _ => exact hP.note shutDown (hP.terminate hm)
  | woken _ _ hreact => exact hP.run fuel (hP.react hreact hm)
  | _ => exact hm

theorem apply {op : Op} (hop : op.drives = true) (hm : P m) : P (g.apply h m op).1 := by
  cases op with
  | step => exact hP.step hm
  | run fuel => exact hP.run fuel hm
  | resume fuel e => exact hP.resume fuel e hm
  | assign name value => cases hop

theorem after {ops : List Op} (hops : ∀ op ∈ ops, op.drives = true) (hm : P m) : P (g.after h m ops) := by
  induction ops generalizing m with
  | nil => exact hm
  | cons op ops ih =>
    obtain ⟨hop, hrest⟩ := List.forall_mem_cons.mp hops
    exact ih hrest (hP.apply hop hm)

end Preserves

/-! ## The invariant -/

structure Sound (g : Engine) (s : State) : Prop where
  pc_le : s.pc ≤ g.program.size
  frames : ∀ i ∈ s.callStack.frames, 1 ≤ i ∧ i ≤ g.program.size
  depth_le : (s.callStack.frames.length : Int) ≤ max 0 g.maxStack
  waiting : s.status = .suspended → ∃ args pos, g.program.statements[s.pc]? = some ⟨.call .waitInput args, pos⟩ ∧
    (s.timeout = none ↔ args = []) ∧ ∀ n, s.timeout = some n → 0 ≤ n
  idle : s.status ≠ .suspended → s.timeout = none
  bound : ∀ l ∈ s.bindings.labels, g.program.hasLabel l = true
  keys : ∀ n l, (.int n, l) ∈ s.bindings.keyboard → isVirtualKey n = true

theorem sound_init (g : Engine) : g.Sound {} where
  pc_le := Nat.zero_le _
  frames := by simp [CallStack.empty]
  depth_le := Int.le_max_left 0 g.maxStack
  waiting := by simp
  idle := by simp
  bound := by simp [Bindings.labels, Menu.items]
  keys := by simp

namespace Sound

variable {g : Engine} {s : State}

theorem set (hs : g.Sound s) (name : String) (value : Int) : g.Sound (s.set name value) :=
  ⟨hs.pc_le, hs.frames, hs.depth_le, hs.waiting, hs.idle, hs.bound, hs.keys⟩

theorem at_pos (hs : g.Sound s) (pos : Option Position) : g.Sound { s with lastPos := pos } :=
  ⟨hs.pc_le, hs.frames, hs.depth_le, hs.waiting, hs.idle, hs.bound, hs.keys⟩

theorem in_mode (hs : g.Sound s) (mode : String) : g.Sound { s with waitMode := mode } :=
  ⟨hs.pc_le, hs.frames, hs.depth_le, hs.waiting, hs.idle, hs.bound, hs.keys⟩

theorem binding (hs : g.Sound s) {b : Bindings} (hl : ∀ l ∈ b.labels, g.program.hasLabel l = true)
    (hk : ∀ n l, (.int n, l) ∈ b.keyboard → isVirtualKey n = true) : g.Sound { s with bindings := b } :=
  ⟨hs.pc_le, hs.frames, hs.depth_le, hs.waiting, hs.idle, hl, hk⟩

theorem terminate (hs : g.Sound s) : g.Sound s.terminate where
  pc_le := hs.pc_le
  frames := hs.frames
  depth_le := hs.depth_le
  waiting := by simp [State.terminate]
  idle _ := rfl
  bound := hs.bound
  keys := hs.keys

theorem jump (hs : g.Sound s) {t : Nat} (ht : t ≤ g.program.size) (hrun : s.status = .running) :
    g.Sound (s.jump t) where
  pc_le := ht
  frames := hs.frames
  depth_le := hs.depth_le
  waiting := by simp [State.jump, hrun]
  idle := hs.idle
  bound := hs.bound
  keys := hs.keys

theorem advance (hs : g.Sound s) (hpc : s.pc < g.program.size) (hrun : s.status = .running) : g.Sound s.advance :=
  hs.jump hpc hrun

theorem call (hs : g.Sound s) {t : Nat} (ht : t ≤ g.program.size) (hrun : s.status = .running)
    (hpc : s.pc < g.program.size) (hdepth : ¬ g.maxStack ≤ s.callStack.depth) :
    g.Sound { s.jump t with callStack := s.callStack.push (s.pc + 1) } where
  pc_le := ht
  frames := by
    intro i hi
    rcases List.mem_cons.mp hi with rfl | hi
    · omega
    · exact hs.frames i hi
  depth_le := by
    have := s.callStack.depth_eq
    simp only [CallStack.push, List.length_cons]
    omega
  waiting := by simp [State.jump, hrun]
  idle := hs.idle
  bound := hs.bound
  keys := hs.keys

theorem back (hs : g.Sound s) {t : Nat} {c : CallStack} (hrun : s.status = .running)
    (hpop : s.callStack.pop? = some (t, c)) : g.Sound { s.jump t with callStack := c } := by
  have hframes := CallStack.pop?_eq_some hpop
  have htop := hs.frames t (by simp [hframes])
  refine ⟨htop.2, ?_, ?_, by simp [State.jump, hrun], hs.idle, hs.bound, hs.keys⟩
  · intro i hi
    exact hs.frames i (by rw [hframes]; exact List.mem_cons_of_mem _ hi)
  · have := hs.depth_le
    rw [hframes, List.length_cons] at this
    simp only
    omega

theorem suspend (hs : g.Sound s) {args : List Argument} {pos : Position} {timeout : Option Int}
    (hst : g.program.statements[s.pc]? = some ⟨.call .waitInput args, pos⟩) (hnone : timeout = none ↔ args = [])
    (hpos : ∀ n, timeout = some n → 0 ≤ n) : g.Sound (s.suspend timeout) where
  pc_le := hs.pc_le
  frames := hs.frames
  depth_le := hs.depth_le
  waiting _ := ⟨args, pos, hst, hnone, hpos⟩
  idle := by simp [State.suspend]
  bound := hs.bound
  keys := hs.keys

theorem wake (hs : g.Sound s) {t : Nat} (ht : t ≤ g.program.size) : g.Sound (s.jump t).wake where
  pc_le := ht
  frames := hs.frames
  depth_le := hs.depth_le
  waiting := by simp [State.wake]
  idle _ := rfl
  bound := hs.bound
  keys := hs.keys

section

variable {args : List Argument} (hs : g.Sound s)
  (hdef : ∀ a ∈ args, ∀ l, a.value = .label l → g.program.hasLabel l = true)

include hs hdef

theorem setMouse {n : Nat} {regions : List MouseRegion}
    (hargs : List.Forall₂ Slot.Holds
      (List.replicate n [Slot.int, Slot.int, Slot.int, Slot.int, Slot.lbl, Slot.var, Slot.var]).flatten args)
    (h : MouseRegion.ofArgs (args.map s.resolve) = .ok regions) :
    g.Sound { s with bindings := s.bindings.setMouse regions } := by
  refine hs.binding (fun l hl => ?_) hs.keys
  rcases Bindings.mem_labels.mp hl with ⟨r, hr, rfl⟩ | hl | hl
  · obtain ⟨a, ha, hv⟩ := MouseRegion.ofArgs_label hargs h r hr
    exact hdef a ha _ hv
  · exact hs.bound l (Bindings.mem_labels.mpr (.inr (.inl hl)))
  · exact hs.bound l (Bindings.mem_labels.mpr (.inr (.inr hl)))

theorem setKeyboard {n : Nat} {keys : List (Value × String)}
    (hargs : List.Forall₂ Slot.Holds (List.replicate n [Slot.key, Slot.lbl]).flatten args)
    (h : keysOfArgs (args.map s.resolve) = .ok keys) (hgood : badKey? keys = none) :
    g.Sound { s with bindings := s.bindings.setKeyboard keys } := by
  refine hs.binding (fun l hl => ?_) fun n l hmem => ?_
  · rcases Bindings.mem_labels.mp hl with hl | ⟨e, he, rfl⟩ | hl
    · exact hs.bound l (Bindings.mem_labels.mpr (.inl hl))
    · obtain ⟨f, hf, hfl⟩ := (KeyTable.mem_ofPairs he).2
      obtain ⟨a, ha, hv⟩ := keysOfArgs_label hargs h f hf
      exact hdef a ha _ (hfl ▸ hv)
    · exact hs.bound l (Bindings.mem_labels.mpr (.inr (.inr hl)))
  · obtain ⟨⟨k, l'⟩, hf, hfk⟩ := (KeyTable.mem_ofPairs hmem).1
    obtain rfl : k = .int n := hfk
    simpa using List.findSome?_eq_none_iff.mp hgood _ hf

theorem setMenu {menu : Menu} (h : Menu.ofArgs (args.map s.resolve) = .ok menu) :
    g.Sound { s with bindings := s.bindings.setMenu menu } := by
  refine hs.binding (fun l hl => ?_) hs.keys
  rcases Bindings.mem_labels.mp hl with hl | hl | ⟨i, hi, hl⟩
  · exact hs.bound l (Bindings.mem_labels.mpr (.inl hl))
  · exact hs.bound l (Bindings.mem_labels.mpr (.inr (.inl hl)))
  · rcases Menu.build_label h hi hl with ⟨j, hj, -⟩ | hmem
    · simp [Menu.openItems] at hj
    · obtain ⟨a, ha, hv⟩ := List.mem_map.mp hmem
      exact hdef a ha l (State.resolve_eq_label hv)

end

theorem wait (hs : g.Sound s) {args : List Argument} {pos : Position}
    (hst : g.program.statements[s.pc]? = some ⟨.call .waitInput args, pos⟩)
    (hargs : Command.waitInput.signature.Admits args) :
    g.Sound (s.suspend (match (args.map s.resolve).head? with
      | some (.int n) => some (max 0 n)
      | _ => none)) := by
  obtain ⟨n, hargs⟩ := hargs
  cases args with
  | nil => exact hs.suspend hst (by simp) (by simp)
  | cons a args =>
    cases n with
    | zero => cases hargs
    | succ n =>
      rcases hargs with _ | ⟨ha, -⟩
      obtain ⟨k, hk⟩ := ha.resolve_int (s := s)
      simp only [List.map_cons, List.head?_cons, hk]
      refine hs.suspend hst (by simp) fun m hm => ?_
      cases hm
      omega

end Sound

/-! ## One statement -/

variable {g : Engine} {s : State} {st : Statement}

/-- The plan keeps the invariant, also if the host fails. -/
structure Keeps (g : Engine) (pl : Plan) : Prop where
  prepared : g.Sound pl.prepared
  completed : ∀ reply s', pl.complete reply = .ok s' → g.Sound s'

theorem keeps_quiet {before after : State} (hb : g.Sound before) (ha : g.Sound after) :
    g.Keeps (.quiet before after) :=
  ⟨hb, fun _ _ h => Except.ok.inj h ▸ ha⟩

theorem keeps_asking {prepared after : State} {rs : List Request} (hp : g.Sound prepared) (ha : g.Sound after) :
    g.Keeps (.asking prepared rs after) :=
  ⟨hp, fun _ _ h => Except.ok.inj h ▸ ha⟩

section

variable (wf : g.program.WellFormed) (hs : g.Sound s) (hrun : s.status = .running)

include wf hs hrun

theorem plan_keeps {pl : Plan} (hst : g.program.statements[s.pc]? = some st)
    (h : Planned g.program g.maxStack s st.action pl) : g.Keeps pl := by
  obtain ⟨hpc, -⟩ := Array.getElem?_eq_some_iff.mp hst
  obtain ⟨action, pos⟩ := st
  have hproper : action.Proper := wf.proper s.pc _ hst
  -- A label among the arguments is one that the program has.
  have hdef : ∀ {c : Command} {args : List Argument}, action = .call c args →
      ∀ a ∈ args, ∀ l, a.value = .label l → g.program.hasLabel l = true := by
    rintro c args rfl a ha l hv
    exact wf.defined s.pc _ hst l (mem_mentions ha hv)
  cases h with
  | label _ => exact keeps_quiet hs (hs.advance hpc hrun)
  | plain _ | forward _ => exact keeps_asking hs (hs.advance hpc hrun)
  | goto ht => exact keeps_quiet hs (hs.jump (wf.target_bounds ht).2 hrun)
  | gosub hdepth ht => exact keeps_quiet hs (hs.call (wf.target_bounds ht).2 hrun hpc (Int.not_le.mpr hdepth))
  | back hpop => exact keeps_quiet hs (hs.back hrun hpop)
  | finish => exact keeps_quiet hs hs.terminate
  | cond lhs op rhs t =>
    refine keeps_quiet hs ?_
    split
    · exact hs.advance hpc hrun
    · exact hs.jump (wf.skip_bounds hst rfl).2 hrun
  | assign _ => exact keeps_quiet hs ((hs.set _ _).advance hpc hrun)
  | wait args => exact keeps_asking hs (hs.wait hst hproper)
  | messageBox _ =>
    refine ⟨hs, fun reply s' hs' => ?_⟩
    obtain ⟨n, -, hs'⟩ := Except.bind_eq_ok.mp hs'
    cases hs'
    exact (hs.set _ n).advance hpc hrun
  | setMouse hregions =>
    obtain ⟨n, hargs⟩ := hproper
    have hb := hs.setMouse (hdef rfl) hargs hregions
    exact keeps_asking hb (hb.advance hpc hrun)
  | setKeyboard hkeys hgood =>
    obtain ⟨n, hargs⟩ := hproper
    have hb := hs.setKeyboard (hdef rfl) hargs hkeys hgood
    exact keeps_asking hb (hb.advance hpc hrun)
  | setMenu hmenu =>
    have hb := hs.setMenu (hdef rfl) hmenu
    exact keeps_asking hb (hb.advance hpc hrun)
  | setWaitMode _ => exact keeps_asking (hs.in_mode _) ((hs.in_mode _).advance hpc hrun)

end

/-! ## Steps, runs and events -/

variable {h : Host σ} {m : Machine σ}

section

variable (wf : g.program.WellFormed)

include wf

theorem perform_sound (hs : g.Sound m.state) (hrun : m.state.status = .running)
    (hst : g.program.statements[m.state.pc]? = some st) : g.Sound (g.perform h st m).1.state := by
  refine perform_state hs fun pl hpl => ?_
  have hkeeps := plan_keeps wf hs hrun hst hpl
  exact ⟨hkeeps.prepared, hkeeps.completed⟩

theorem carries_sound (h : Host σ) : g.Carries h fun m => g.Sound m.state where
  place pos hs := hs.at_pos pos
  note _ hs := hs
  terminate hs := hs.terminate
  perform hrun hst hs := perform_sound wf hs hrun hst

theorem step_sound (hs : g.Sound m.state) : g.Sound (g.step h m).1.state := (carries_sound wf h).step hs

theorem run_sound (hs : g.Sound m.state) (fuel : Nat) : g.Sound (g.run h fuel m).1.state :=
  (carries_sound wf h).run fuel hs

theorem wakeAt_sound {s' : State} (hs : g.Sound s) (hs' : g.Sound s') {o : Option String}
    (ho : ∀ l, o = some l → l ∈ s.bindings.labels) : ∃ r, g.wakeAt s' o = .ok r ∧ ∀ s'' ∈ r, g.Sound s'' := by
  cases o with
  | none => exact ⟨none, rfl, by simp⟩
  | some l =>
    obtain ⟨t, ht⟩ := Option.isSome_iff_exists.mp (hs.bound l (ho l rfl))
    refine ⟨some (s'.jump t).wake, ?_, ?_⟩
    · simp only [wakeAt, Program.target, ht]
      rfl
    · rintro _ ⟨⟩
      exact hs'.wake (wf.target_bounds ht).2

/-- An event leads to a sound state or to none, unless its parts do not fit. -/
theorem react_sound (hs : g.Sound s) (hwait : s.status = .suspended) (i : Input) :
    (∃ r, g.react s i = .ok r ∧ ∀ s' ∈ r, g.Sound s') ∨ g.react s i = .error .misfit := by
  cases i with
  | click x y =>
    simp only [react]
    cases hm : s.bindings.matchMouse x y with
    | error f => exact .inr rfl
    | ok found =>
      cases found with
      | none => exact .inl ⟨none, rfl, by simp⟩
      | some r =>
        have hl : ∀ l, some r.label = some l → l ∈ s.bindings.labels := by
          rintro _ ⟨⟩
          exact Bindings.matchMouse_mem hm
        exact .inl (wakeAt_sound wf hs ((hs.set _ _).set _ _) hl)
  | key code char ctrl =>
    simp only [react]
    cases hm : s.bindings.matchKey code char ctrl with
    | error f => exact .inr rfl
    | ok o => exact .inl (wakeAt_sound wf hs hs fun l hl => Bindings.matchKey_mem (hl ▸ hm))
  | menu n =>
    simp only [react]
    cases hm : s.bindings.matchMenu n with
    | error f => exact .inr rfl
    | ok o => exact .inl (wakeAt_sound wf hs hs fun l hl => Bindings.matchMenu_mem (hl ▸ hm))
  | timeout =>
    -- The program waits at a statement, so there is a place behind it.
    obtain ⟨args, pos, hst, -⟩ := hs.waiting hwait
    obtain ⟨hpc, -⟩ := Array.getElem?_eq_some_iff.mp hst
    refine .inl ⟨_, rfl, fun s' hs' => ?_⟩
    split at hs'
    · cases hs'
      exact hs.wake hpc
    · cases hs'
  | quit => exact .inl ⟨none, rfl, by simp⟩

theorem resume_sound (hs : g.Sound m.state) (fuel : Nat) (e : Event) :
    g.Sound (g.resume h fuel e m).1.state := by
  have hresumed := resumed g h fuel e m
  generalize g.resume h fuel e m = r at hresumed
  cases hresumed with
  | quit _ _ => exact hs.terminate
  | woken hwait _ hreact =>
    rcases react_sound wf hs hwait _ with ⟨r, hr, hsound⟩ | hr
    · rw [hreact] at hr
      cases hr
      exact run_sound wf (hsound _ rfl) fuel
    · rw [hreact] at hr
      cases hr
  | _ => exact hs

theorem apply_sound (hs : g.Sound m.state) (op : Op) : g.Sound (g.apply h m op).1.state := by
  cases op with
  | step => exact step_sound wf hs
  | run fuel => exact run_sound wf hs fuel
  | resume fuel e => exact resume_sound wf hs fuel e
  | assign name value => exact hs.set name value

theorem after_sound (hs : g.Sound m.state) (ops : List Op) : g.Sound (g.after h m ops).state := by
  induction ops generalizing m with
  | nil => exact hs
  | cons op ops ih => exact ih (apply_sound wf hs op)

end

end Engine

end GraphicsBatch
