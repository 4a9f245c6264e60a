import GraphicsBatch.Engine.Step

/-!
# What a statement can do

One rule for each kind of statement: what changes at once, what is asked of the host, and the state after the
answer. A second list of rules has the reasons for which a statement is refused. Whatever is proved about
statements can be read off from these two lists.
-/

namespace GraphicsBatch

/-! ## Plans and refusals -/

section

variable (p : Program) (maxStack : Int) (s : State)

inductive Planned : Action → Plan → Prop where
  | label (name : String) : Planned (.label name) (.quiet s s.advance)
  | plain (c : Command) : Planned (.plain c) (.asking s [.forward c []] s.advance)
  | goto {l : String} {t : Nat} : p.labels.lookup (Text.upper l) = some t → Planned (.goto l) (.quiet s (s.jump t))
  | gosub {l : String} {t : Nat} : s.callStack.depth < maxStack → p.labels.lookup (Text.upper l) = some t →
      Planned (.gosub l) (.quiet s { s.jump t with callStack := s.callStack.push (s.pc + 1) })
  | back {t : Nat} {callStack : CallStack} : s.callStack.pop? = some (t, callStack) →
      Planned .back (.quiet s { s.jump t with callStack })
  | finish : Planned .finish (.quiet s s.terminate)
  | cond (lhs : Operand) (op : Comparison) (rhs : Operand) (t : Nat) :
      Planned (.cond lhs op rhs t)
        (.quiet s (if op.holds (s.value lhs) (s.value rhs) then s.advance else s.jump t))
  | assign {v : String} {e : Expr} {pos : Position} {n : Int} : s.eval e pos = .ok n →
      Planned (.assign v e) (.quiet s (s.set v n).advance)
  | wait (args : List Argument) :
      Planned (.call .waitInput args) (.asking s [.forward .waitInput (args.map s.resolve)]
        (s.suspend (match (args.map s.resolve).head? with
          | some (.int n) => some (max 0 n)
          | _ => none)))
  | messageBox {args : List Argument} {name : String} : (args.map s.resolve).getLast? = some (.var name) →
      Planned (.call .messageBox args) {
        prepared := s
        requests := [.forward .messageBox (args.map s.resolve).dropLast]
        complete := fun reply => do
          let n ← buttonNumber reply
          return (s.set name n).advance }
  | setMouse {args : List Argument} {regions : List MouseRegion} :
      MouseRegion.ofArgs (args.map s.resolve) = .ok regions →
      Planned (.call .setMouse args) (.asking { s with bindings := s.bindings.setMouse regions }
        (.forward .setMouse (args.map s.resolve) :: regions.map (.bindMouse · s.waitMode))
        { s with bindings := s.bindings.setMouse regions }.advance)
  | setKeyboard {args : List Argument} {keys : List (Value × String)} :
      keysOfArgs (args.map s.resolve) = .ok keys → badKey? keys = none →
      Planned (.call .setKeyboard args) (.asking { s with bindings := s.bindings.setKeyboard keys }
        (.forward .setKeyboard (args.map s.resolve) :: keys.map fun (k, l) => .bindKey k l)
        { s with bindings := s.bindings.setKeyboard keys }.advance)
  | setMenu {args : List Argument} {menu : Menu} : Menu.ofArgs (args.map s.resolve) = .ok menu →
      Planned (.call .setMenu args) (.asking { s with bindings := s.bindings.setMenu menu }
        [.forward .setMenu (args.map s.resolve), .showMenu menu]
        { s with bindings := s.bindings.setMenu menu }.advance)
  | setWaitMode {args : List Argument} {mode : String} : (args.map s.resolve).head? = some (.token mode) →
      Planned (.call .setWaitMode args) (.asking { s with waitMode := mode }
        [.forward .setWaitMode (args.map s.resolve)] { s with waitMode := mode }.advance)
  | forward {c : Command} {args : List Argument} :
      c ∉ [.waitInput, .messageBox, .setMouse, .setKeyboard, .setMenu, .setWaitMode] →
      Planned (.call c args) (.asking s [.forward c (args.map s.resolve)] s.advance)

/-- Why a statement at `pos` is refused. -/
inductive Refused (pos : Position) : Action → Halt → Prop where
  | goto {l : String} : p.labels.lookup (Text.upper l) = none →
      Refused pos (.goto l) (.error { kind := .undefinedLabel, detail := l, pos := some pos })
  | gosub {l : String} : s.callStack.depth < maxStack → p.labels.lookup (Text.upper l) = none →
      Refused pos (.gosub l) (.error { kind := .undefinedLabel, detail := l, pos := some pos })
  | tooDeep {l : String} : maxStack ≤ s.callStack.depth →
      Refused pos (.gosub l) (.error { kind := .outOfStack, detail := l, pos := some pos })
  | back : s.callStack.pop? = none →
      Refused pos .back (.error { kind := .returnWithoutGosub, pos := some pos })
  | divisionByZero {v : String} {e : Expr} : s.eval e pos = .error (.error { kind := .divisionByZero }) →
      Refused pos (.assign v e) (.error { kind := .divisionByZero })
  | overflow {v : String} {e : Expr} {n : Int} : s.eval e pos = .error (refuse .overflow n pos) →
      Refused pos (.assign v e) (refuse .overflow n pos)
  | badKey {args : List Argument} {keys : List (Value × String)} {n : Int} :
      keysOfArgs (args.map s.resolve) = .ok keys → badKey? keys = some n →
      Refused pos (.call .setKeyboard args) (refuse .invalidKey n pos)
  | misfit (c : Command) (args : List Argument) : Refused pos (.call c args) misfit

end

variable {p : Program} {maxStack : Int} {s : State}

theorem State.eval_error {e : Expr} {pos : Position} {halt : Halt} (h : s.eval e pos = .error halt) :
    halt = .error { kind := .divisionByZero } ∨ ∃ op second n, e.more = some (op, second) ∧
      op.apply (s.value e.first) (s.value second) = .ok n ∧ halt = refuse .overflow n pos := by
  unfold State.eval at h
  split at h
  · cases h
  · rename_i op second hmore
    cases happly : op.apply (s.value e.first) (s.value second) with
    | error f =>
      rw [happly] at h
      cases h
      cases op <;> simp only [Operator.apply, reduceCtorEq] at happly
      unfold divide at happly
      split at happly
      · cases happly
        exact .inl rfl
      · cases happly
    | ok n =>
      rw [happly] at h
      replace h : (if minInt ≤ n ∧ n ≤ maxInt then pure n else throw (refuse .overflow n pos) : Except Halt Int) =
          .error halt := h
      split at h
      · cases h
      · exact .inr ⟨op, second, n, hmore, happly, (Except.error.inj h).symm⟩

theorem planCall_cases (s : State) (c : Command) (args : List Argument) (pos : Position) :
    (∃ pl, planCall s c args pos = .ok pl ∧ Planned p maxStack s (.call c args) pl) ∨
      ∃ halt, planCall s c args pos = .error halt ∧ Refused p maxStack s pos (.call c args) halt := by
  unfold planCall
  dsimp only
  split
  · exact .inl ⟨_, rfl, .wait args⟩
  · split
    · rename_i hlast
      exact .inl ⟨_, rfl, .messageBox hlast⟩
    · exact .inr ⟨_, rfl, .misfit _ _⟩
  · split
    · rename_i hregions
      exact .inl ⟨_, rfl, .setMouse hregions⟩
    · exact .inr ⟨_, rfl, .misfit _ _⟩
  · split
    · rename_i hkeys
      split
      · rename_i hbad
        exact .inr ⟨_, rfl, .badKey hkeys hbad⟩
      · rename_i hgood
        exact .inl ⟨_, rfl, .setKeyboard hkeys hgood⟩
    · exact .inr ⟨_, rfl, .misfit _ _⟩
  · split
    · rename_i hmenu
      exact .inl ⟨_, rfl, .setMenu hmenu⟩
    · exact .inr ⟨_, rfl, .misfit _ _⟩
  · split
    · rename_i hmode
      exact .inl ⟨_, rfl, .setWaitMode (by rw [hmode, List.head?_cons])⟩
    · exact .inr ⟨_, rfl, .misfit _ _⟩
  · refine .inl ⟨_, rfl, .forward ?_⟩
    simp_all

theorem plan_cases (p : Program) (maxStack : Int) (s : State) (st : Statement) :
    (∃ pl, plan p maxStack s st = .ok pl ∧ Planned p maxStack s st.action pl) ∨
      ∃ halt, plan p maxStack s st = .error halt ∧ Refused p maxStack s st.pos st.action halt := by
  obtain ⟨action, pos⟩ := st
  cases action with
  | label name => exact .inl ⟨_, rfl, .label name⟩
  | plain c => exact .inl ⟨_, rfl, .plain c⟩
  | finish => exact .inl ⟨_, rfl, .finish⟩
  | cond lhs op rhs t => exact .inl ⟨_, rfl, .cond lhs op rhs t⟩
  | goto l =>
    cases hl : p.labels.lookup (Text.upper l) with
    | none => exact .inr ⟨_, by simp only [plan, Program.target, hl]; rfl, .goto hl⟩
    | some t => exact .inl ⟨_, by simp only [plan, Program.target, hl]; rfl, .goto hl⟩
  | gosub l =>
    by_cases hdepth : maxStack ≤ s.callStack.depth
    · exact .inr ⟨_, by simp only [plan, if_pos hdepth]; rfl, .tooDeep hdepth⟩
    · have hroom : s.callStack.depth < maxStack := by omega
      cases hl : p.labels.lookup (Text.upper l) with
      | none => exact .inr ⟨_, by simp only [plan, if_neg hdepth, Program.target, hl]; rfl, .gosub hroom hl⟩
      | some t => exact .inl ⟨_, by simp only [plan, if_neg hdepth, Program.target, hl]; rfl, .gosub hroom hl⟩
  | back =>
    cases hpop : s.callStack.pop? with
    | none => exact .inr ⟨_, by simp only [plan, hpop], .back hpop⟩
    | some r => exact .inl ⟨_, by simp only [plan, hpop], .back hpop⟩
  | assign v e =>
    cases heval : s.eval e pos with
    | ok n => exact .inl ⟨_, by simp only [plan, heval]; rfl, .assign heval⟩
    | error halt =>
      refine .inr ⟨halt, by simp only [plan, heval]; rfl, ?_⟩
      rcases State.eval_error heval with rfl | ⟨_, _, n, -, -, rfl⟩
      · exact .divisionByZero heval
      · exact .overflow heval
  | call c args => exact planCall_cases s c args pos

theorem planned_of_plan {st : Statement} {pl : Plan} (h : plan p maxStack s st = .ok pl) :
    Planned p maxStack s st.action pl := by
  rcases plan_cases p maxStack s st with ⟨_, heq, hpl⟩ | ⟨_, heq, -⟩
  · rw [heq] at h
    cases h
    exact hpl
  · rw [heq] at h
    cases h

theorem refused_of_plan {st : Statement} {halt : Halt} (h : plan p maxStack s st = .error halt) :
    Refused p maxStack s st.pos st.action halt := by
  rcases plan_cases p maxStack s st with ⟨_, heq, -⟩ | ⟨_, heq, hhalt⟩
  · rw [heq] at h
    cases h
  · rw [heq] at h
    cases h
    exact hhalt

theorem ProgramError.locate_of_pos {e : ProgramError} {pos q : Position} (h : e.pos = some q) : e.locate pos = e := by
  obtain ⟨kind, detail, place, number⟩ := e
  cases h
  rfl

theorem Refused.locate_pos {pos : Position} {a : Action} {e : ProgramError}
    (hr : Refused p maxStack s pos a (.error e)) : (e.locate pos).pos = some pos := by
  have hrefuse : ∀ {kind : ErrorKind} {n : Int}, refuse kind n pos = .error e → (e.locate pos).pos = some pos := by
    intro kind n heq
    unfold refuse at heq
    split at heq
    · cases heq
      rfl
    · cases heq
  generalize hhalt : Halt.error e = halt at hr
  cases hr with
  | overflow _ => exact hrefuse hhalt.symm
  | badKey _ _ => exact hrefuse hhalt.symm
  | _ =>
    cases hhalt
    rfl

/-! ## What a plan leaves alone -/

/-- Control, calls and variables are as they were, and so are all bindings but those of a binding command. -/
structure Spares (a : Action) (s s' : State) : Prop where
  pc : s'.pc = s.pc
  callStack : s'.callStack = s.callStack
  vars : s'.vars = s.vars
  mouse : s'.bindings.mouse = s.bindings.mouse ∨ ∃ args, a = .call .setMouse args
  keyboard : s'.bindings.keyboard = s.bindings.keyboard ∨ ∃ args, a = .call .setKeyboard args
  menu : s'.bindings.menu = s.bindings.menu ∨ ∃ args, a = .call .setMenu args
  waitMode : s'.waitMode = s.waitMode ∨ ∃ args, a = .call .setWaitMode args

theorem Spares.refl (a : Action) (s : State) : Spares a s s :=
  ⟨rfl, rfl, rfl, .inl rfl, .inl rfl, .inl rfl, .inl rfl⟩

namespace Planned

variable {a : Action} {pl : Plan}

theorem spares_prepared (h : Planned p maxStack s a pl) : Spares a s pl.prepared := by
  cases h with
  | setMouse _ => exact ⟨rfl, rfl, rfl, .inr ⟨_, rfl⟩, .inl rfl, .inl rfl, .inl rfl⟩
  | setKeyboard _ _ => exact ⟨rfl, rfl, rfl, .inl rfl, .inr ⟨_, rfl⟩, .inl rfl, .inl rfl⟩
  | setMenu _ => exact ⟨rfl, rfl, rfl, .inl rfl, .inl rfl, .inr ⟨_, rfl⟩, .inl rfl⟩
  | setWaitMode _ => exact ⟨rfl, rfl, rfl, .inl rfl, .inl rfl, .inl rfl, .inr ⟨_, rfl⟩⟩
  | _ => exact .refl _ s

theorem prepared_status (h : Planned p maxStack s a pl) :
    pl.prepared.status = s.status ∧ pl.prepared.lastPos = s.lastPos := by
  cases h <;> exact ⟨rfl, rfl⟩

end Planned

/-! ## Carrying a statement out -/

theorem Host.ask_snd {σ : Type} {h : Host σ} (r : Request) (w : σ) : (h.ask r w).2 = (h.call r w).2 := by
  unfold ask
  split <;> simp_all

namespace Engine

variable {σ : Type}

/-- How a statement comes out: it is refused, the host denies a request, its answer is no number, or all is done. -/
inductive Performed (g : Engine) (h : Host σ) (st : Statement) (m : Machine σ) : Machine σ × Option Halt → Prop where
  | unchecked {halt : Halt} {w : σ} : h.ask .checkEvents m.world = (.error halt, w) →
      Performed g h st m (⟨m.state, w⟩, some halt)
  | refused {d : Datum} {w : σ} {halt : Halt} : h.ask .checkEvents m.world = (.ok d, w) →
      plan g.program g.maxStack m.state st = .error halt → Performed g h st m (⟨m.state, w⟩, some halt)
  | denied {d : Datum} {w w' : σ} {pl : Plan} {halt : Halt} : h.ask .checkEvents m.world = (.ok d, w) →
      plan g.program g.maxStack m.state st = .ok pl → h.askAll pl.requests w = (.error halt, w') →
      Performed g h st m (⟨pl.prepared, w'⟩, some halt)
  | unread {d reply : Datum} {w w' : σ} {pl : Plan} {f : IntFault} : h.ask .checkEvents m.world = (.ok d, w) →
      plan g.program g.maxStack m.state st = .ok pl → h.askAll pl.requests w = (.ok reply, w') →
      pl.complete reply = .error f → Performed g h st m (⟨pl.prepared, w'⟩, some (.conversion f))
  | done {d reply : Datum} {w w' : σ} {pl : Plan} {s : State} : h.ask .checkEvents m.world = (.ok d, w) →
      plan g.program g.maxStack m.state st = .ok pl → h.askAll pl.requests w = (.ok reply, w') →
      pl.complete reply = .ok s → Performed g h st m (⟨s, w'⟩, none)

theorem performed (g : Engine) (h : Host σ) (st : Statement) (m : Machine σ) :
    Performed g h st m (g.perform h st m) := by
  unfold perform
  split
  · rename_i hcheck
    exact .unchecked hcheck
  · rename_i hcheck
    split
    · rename_i hplan
      exact .refused hcheck hplan
    · rename_i hplan
      split
      · rename_i hasked
        exact .denied hcheck hplan hasked
      · rename_i hasked
        split
        · rename_i hdone
          exact .done hcheck hplan hasked hdone
        · rename_i hfault
          exact .unread hcheck hplan hasked hfault

variable {g : Engine} {h : Host σ} {st : Statement} {m : Machine σ}

/-- What holds once events have been looked for, and again once the requests are made, holds after the statement. -/
theorem perform_ends {P : State → σ → Prop} (hcheck : P m.state (h.call .checkEvents m.world).2)
    (hplan : ∀ pl, Planned g.program g.maxStack m.state st.action pl →
      P pl.prepared (h.askAll pl.requests (h.call .checkEvents m.world).2).2 ∧
        ∀ reply s, pl.complete reply = .ok s → P s (h.askAll pl.requests (h.call .checkEvents m.world).2).2) :
    P (g.perform h st m).1.state (g.perform h st m).1.world := by
  rw [← Host.ask_snd] at hcheck hplan
  have hperformed := performed g h st m
  generalize g.perform h st m = r at hperformed
  cases hperformed with
  | unchecked hask | refused hask _ =>
    rw [hask] at hcheck
    exact hcheck
  | denied hask hpl hall | unread hask hpl hall _ =>
    have hprepared := (hplan _ (planned_of_plan hpl)).1
    rw [hask, hall] at hprepared
    exact hprepared
  | done hask hpl hall hs =>
    have hcompleted := (hplan _ (planned_of_plan hpl)).2 _ _ hs
    rw [hask, hall] at hcompleted
    exact hcompleted

theorem perform_state {P : State → Prop} (hm : P m.state)
    (hplan : ∀ pl, Planned g.program g.maxStack m.state st.action pl →
      P pl.prepared ∧ ∀ reply s, pl.complete reply = .ok s → P s) : P (g.perform h st m).1.state :=
  perform_ends (P := fun s _ => P s) hm hplan

/-- What looking for events and all requests leave as it is, the statement leaves. -/
theorem perform_keeps {P : σ → Prop} (hcheck : ∀ w, P w → P (h.call .checkEvents w).2)
    (hasked : ∀ pl w, Planned g.program g.maxStack m.state st.action pl → P w → P (h.askAll pl.requests w).2)
    (hm : P m.world) : P (g.perform h st m).1.world := by
  have hchecked := hcheck _ hm
  refine perform_ends (P := fun _ w => P w) hchecked fun pl hpl => ?_
  exact ⟨hasked pl _ hpl hchecked, fun _ _ _ => hasked pl _ hpl hchecked⟩

end Engine

end GraphicsBatch
