import GraphicsBatch.Proofs.Layout
import GraphicsBatch.Proofs.Paired
import GraphicsBatch.Proofs.Recorded

/-!
# Programs that are alike run alike

Two programs that are alike, on two hosts that answer alike, stay in step: after every operation their states and
the worlds of their hosts correspond, and they raise errors of the same kinds at places that correspond.
-/

namespace GraphicsBatch

theorem forall₂_getElem? {α β : Type} {R : α → β → Prop} {xs : List α} {ys : List β} (h : List.Forall₂ R xs ys) (i : Nat) :
    Option.Rel R xs[i]? ys[i]? := by
  induction h generalizing i with
  | nil => exact .none
  | cons hxy _ ih =>
    cases i with
    | zero => exact .some hxy
    | succ i => exact ih i

theorem Agree.pair_cases {ε ε' α σ σ' : Type} {E : ε → ε' → Prop} {x : Except ε α × σ} {x' : Except ε' α × σ'}
    (h : Agree True E Eq x.1 x'.1) :
    (∃ a w w', x = (.ok a, w) ∧ x' = (.ok a, w')) ∨ ∃ e e' w w', x = (.error e, w) ∧ x' = (.error e', w') ∧ E e e' := by
  obtain ⟨r, w⟩ := x
  obtain ⟨r', w'⟩ := x'
  rcases h.cases with ⟨a, _, rfl, rfl, rfl⟩ | ⟨e, e', rfl, rfl, he⟩ | ⟨_, _, _, _, hstrict⟩
  · exact .inl ⟨a, w, w', rfl, rfl⟩
  · exact .inr ⟨e, e', w, w', rfl, rfl, he trivial⟩
  · exact absurd trivial hstrict

namespace Likeness

variable (lk : Likeness)

/-! ## Hosts -/

inductive SignalLike : Signal → Signal → Prop where
  | exit : SignalLike .exit .exit
  | interrupt : SignalLike .interrupt .interrupt
  | error {e e' : ProgramError} : lk.ErrorLike e e' → SignalLike (.error e) (.error e')
  | failure (f f' : Failure) : SignalLike (.failure f) (.failure f')

/-- Records that are the same, or that show statements that are alike. -/
inductive RecordLike : Record → Record → Prop where
  | same (r : Record) : RecordLike r r
  | trace {st st' : Statement} : lk.StatementLike st st' →
      RecordLike ⟨.debug, "[" ++ st.pos.render ++ "] " ++ st.render⟩
        ⟨.debug, "[" ++ st'.pos.render ++ "] " ++ st'.render⟩

variable {σ σ' : Type}

/-- Hosts that answer alike as long as their worlds correspond, which what is asked and logged keeps up. -/
structure HostLike (W : σ → σ' → Prop) (h : Host σ) (h' : Host σ') : Prop where
  answer {r r' : Request} {w : σ} {w' : σ'} : lk.RequestLike r r' → W w w' →
    Agree True lk.SignalLike Eq (h.call r w).1 (h'.call r' w').1
  call {r r' : Request} {w : σ} {w' : σ'} : lk.RequestLike r r' → W w w' → W (h.call r w).2 (h'.call r' w').2
  note {r r' : Record} {w : σ} {w' : σ'} : lk.RecordLike r r' → W w w' → W (h.note r w) (h'.note r' w')

structure MachineLike (W : σ → σ' → Prop) (m : Machine σ) (m' : Machine σ') : Prop where
  state : lk.StateLike m.state m'.state
  world : W m.world m'.world

inductive TrapLike : Trap → Trap → Prop where
  | error {e e' : ProgramError} : lk.ErrorLike e e' → TrapLike (.error e) (.error e')
  | interrupt : TrapLike .interrupt .interrupt
  | conversion (f : IntFault) : TrapLike (.conversion f) (.conversion f)
  | misfit : TrapLike .misfit .misfit

/-- Operations that end in runs that correspond, both of them well or both with traps that are alike. -/
structure OutcomeLike (W : σ → σ' → Prop) (x : Machine σ × Except Trap Unit) (x' : Machine σ' × Except Trap Unit) :
    Prop where
  machine : lk.MachineLike W x.1 x'.1
  result : Agree True lk.TrapLike Eq x.2 x'.2

/-- Engines with the same settings for programs that are alike, the first of them well formed. -/
structure EngineLike (g g' : Engine) : Prop where
  wellFormed : g.program.WellFormed
  program : lk.ProgramLike g.program g'.program
  maxStack : g.maxStack = g'.maxStack
  trace : g.trace = g'.trace

variable {lk} {W : σ → σ' → Prop} {h : Host σ} {h' : Host σ'} {g g' : Engine} {m : Machine σ} {m' : Machine σ'}

/-! ## Asking -/

theorem SignalLike.halt {s s' : Signal} (hs : lk.SignalLike s s') : lk.HaltLike (.ofSignal s) (.ofSignal s') := by
  cases hs with
  | exit => exact .exit
  | interrupt => exact .interrupt
  | error he => exact .error he
  | failure f f' => exact .error ⟨rfl, .none⟩

namespace HostLike

variable (hh : lk.HostLike W h h') {w : σ} {w' : σ'}

include hh

theorem ask_like {r r' : Request} (hr : lk.RequestLike r r') (hw : W w w') :
    Agree True lk.HaltLike Eq (h.ask r w).1 (h'.ask r' w').1 ∧ W (h.ask r w).2 (h'.ask r' w').2 := by
  have hcall := hh.call hr hw
  rcases (hh.answer hr hw).pair_cases with ⟨reply, w₁, w₁', hc, hc'⟩ | ⟨e, e', w₁, w₁', hc, hc', he⟩ <;>
    rw [hc, hc'] at hcall <;> simp only [Host.ask, hc, hc']
  · exact ⟨rfl, hcall⟩
  · exact ⟨fun _ => he.halt, hcall⟩

theorem askAll_like {rs rs' : List Request} (hrs : List.Forall₂ lk.RequestLike rs rs') (hw : W w w') :
    Agree True lk.HaltLike Eq (h.askAll rs w).1 (h'.askAll rs' w').1 ∧ W (h.askAll rs w).2 (h'.askAll rs' w').2 := by
  induction hrs generalizing w w' with
  | nil => exact ⟨rfl, hw⟩
  | @cons r r' rs rs' hr _ ih =>
    obtain ⟨hreply, hw₁⟩ := hh.ask_like hr hw
    rcases hreply.pair_cases with ⟨reply, w₁, w₁', ha, ha'⟩ | ⟨e, e', w₁, w₁', ha, ha', he⟩
    · rw [ha, ha'] at hw₁
      obtain ⟨hmore, hw₂⟩ := ih hw₁
      rcases hmore.pair_cases with ⟨_, w₂, w₂', hm, hm'⟩ | ⟨e, e', w₂, w₂', hm, hm', he⟩ <;>
        rw [hm, hm'] at hw₂ <;> simp only [Host.askAll, ha, ha', hm, hm']
      · exact ⟨rfl, hw₂⟩
      · exact ⟨fun _ => he, hw₂⟩
    · rw [ha, ha'] at hw₁
      simp only [Host.askAll, ha, ha']
      exact ⟨fun _ => he, hw₁⟩

end HostLike

/-! ## Steps -/

theorem ErrorLike.locate {e e' : ProgramError} (he : lk.ErrorLike e e') {pos pos' : Position} (hpos : lk.place pos pos') :
    lk.ErrorLike (e.locate pos) (e'.locate pos') := by
  obtain ⟨kind, detail, place, number⟩ := e
  obtain ⟨kind', detail', place', number'⟩ := e'
  obtain ⟨hkind, hplace⟩ := he
  cases hplace with
  | some hplace => exact ⟨hkind, .some hplace⟩
  | none => exact ⟨hkind, .some hpos⟩

theorem HostLike.conclude_like (hh : lk.HostLike W h h') {pos pos' : Position} (hpos : lk.place pos pos')
    {r : Machine σ × Option Halt} {r' : Machine σ' × Option Halt} (hm : lk.MachineLike W r.1 r'.1)
    (hhalt : Option.Rel lk.HaltLike r.2 r'.2) :
    lk.OutcomeLike W (Engine.conclude h pos r) (Engine.conclude h' pos' r') := by
  obtain ⟨m, halt⟩ := r
  obtain ⟨m', halt'⟩ := r'
  cases hhalt with
  | none => exact ⟨hm, rfl⟩
  | some hhalt =>
    cases hhalt with
    | exit => exact ⟨⟨hm.state.terminate, hh.note (.same _) hm.world⟩, rfl⟩
    | interrupt => exact ⟨hm, fun _ => .interrupt⟩
    | error he => exact ⟨⟨hm.state.terminate, hm.world⟩, fun _ => .error (he.locate hpos)⟩
    | conversion f => exact ⟨hm, fun _ => .conversion f⟩

namespace EngineLike

variable (hg : lk.EngineLike g g') (hh : lk.HostLike W h h')

include hg in
theorem statement?_like (i : Nat) :
    Option.Rel lk.StatementLike g.program.statements[i]? g'.program.statements[i]? := by
  rw [← Array.getElem?_toList, ← Array.getElem?_toList]
  exact forall₂_getElem? hg.program.statements i

include hg hh

theorem perform_like {st st' : Statement} (hproper : st.action.Proper) (hst : lk.StatementLike st st')
    (hm : lk.MachineLike W m m') :
    lk.MachineLike W (g.perform h st m).1 (g'.perform h' st' m').1 ∧
      Option.Rel lk.HaltLike (g.perform h st m).2 (g'.perform h' st' m').2 := by
  obtain ⟨hcheck, hw⟩ := hh.ask_like .checkEvents hm.world
  rcases hcheck.pair_cases with ⟨_, w, w', ha, ha'⟩ | ⟨e, e', w, w', ha, ha', he⟩ <;> rw [ha, ha'] at hw
  · have hplan := plan_like hg.program.labels g.maxStack hm.state hproper hst
    rw [hg.maxStack] at hplan
    rcases hplan.cases with ⟨pl, pl', hpl, hpl', hlike⟩ | ⟨e, e', hpl, hpl', he⟩ | ⟨_, _, _, _, hstrict⟩
    · obtain ⟨hreply, hw₁⟩ := hh.askAll_like hlike.requests hw
      rcases hreply.pair_cases with ⟨reply, w₁, w₁', hq, hq'⟩ | ⟨e, e', w₁, w₁', hq, hq', he⟩ <;> rw [hq, hq'] at hw₁
      · rcases (hlike.complete reply).cases with ⟨s, s', hs, hs', hstate⟩ | ⟨f, _, hf, hf', heq⟩ | ⟨_, _, _, _, hstrict⟩
        · simp only [Engine.perform, ha, ha', hg.maxStack, hpl, hpl', hq, hq', hs, hs']
          exact ⟨⟨hstate, hw₁⟩, .none⟩
        · obtain rfl := heq trivial
          simp only [Engine.perform, ha, ha', hg.maxStack, hpl, hpl', hq, hq', hf, hf']
          exact ⟨⟨hlike.prepared, hw₁⟩, .some (.conversion f)⟩
        · exact absurd trivial hstrict
      · simp only [Engine.perform, ha, ha', hg.maxStack, hpl, hpl', hq, hq']
        exact ⟨⟨hlike.prepared, hw₁⟩, .some he⟩
    · simp only [Engine.perform, ha, ha', hg.maxStack, hpl, hpl']
      exact ⟨⟨hm.state, hw⟩, .some (he trivial)⟩
    · exact absurd trivial hstrict
  · simp only [Engine.perform, ha, ha']
    exact ⟨⟨hm.state, hw⟩, .some he⟩

theorem entering_like {st st' : Statement} (hst : lk.StatementLike st st') (hm : lk.MachineLike W m m') :
    lk.MachineLike W (g.entering h st m) (g'.entering h' st' m') := by
  refine ⟨{ hm.state with lastPos := .some hst.pos }, ?_⟩
  simp only [Engine.entering, hg.trace]
  split
  · exact hh.note (.trace hst) hm.world
  · exact hm.world

theorem step_like (hm : lk.MachineLike W m m') : lk.OutcomeLike W (g.step h m) (g'.step h' m') := by
  by_cases hrun : m.state.status = .running
  · have hrun' : m'.state.status = .running := hm.state.status ▸ hrun
    have hst := hg.statement?_like m.state.pc
    generalize hq : g.program.statements[m.state.pc]? = q, hq' : g'.program.statements[m.state.pc]? = q' at hst
    rw [hm.state.pc] at hq'
    cases hst with
    | none =>
      simp only [Engine.step, hrun, hrun', hq, hq', ne_eq, not_true, if_false]
      exact ⟨⟨hm.state.terminate, hm.world⟩, rfl⟩
    | @some st st' hst =>
      rw [Engine.step_eq_conclude hrun hq, Engine.step_eq_conclude hrun' hq']
      have hproper := hg.wellFormed.proper _ st hq
      obtain ⟨hperform, hhalt⟩ := hg.perform_like hh hproper hst (hg.entering_like hh hst hm)
      exact hh.conclude_like hst.pos hperform hhalt
  · have hrun' : m'.state.status ≠ .running := hm.state.status ▸ hrun
    simp only [Engine.step, ne_eq, hrun, hrun', not_false_eq_true, if_true]
    exact ⟨hm, rfl⟩

theorem run_like (fuel : Nat) (hm : lk.MachineLike W m m') : lk.OutcomeLike W (g.run h fuel m) (g'.run h' fuel m') := by
  induction fuel generalizing m m' with
  | zero => exact ⟨hm, rfl⟩
  | succ fuel ih =>
    unfold Engine.run
    rw [hm.state.status]
    split
    · exact ⟨hm, rfl⟩
    · obtain ⟨hm₁, hresult⟩ := hg.step_like hh hm
      generalize g.step h m = x, g'.step h' m' = x' at hm₁ hresult
      obtain ⟨m₁, _ | _⟩ := x <;> obtain ⟨m₁', _ | _⟩ := x'
      · exact ⟨hm₁, hresult⟩
      · exact absurd trivial hresult
      · exact hresult.elim
      · exact ih hm₁

end EngineLike

/-! ## Events -/

section

variable {b b' : Bindings}

theorem BindingsLike.matchMouse_like (hb : lk.BindingsLike b b') (x y : Datum) :
    Agree True Eq (Option.Rel lk.RegionLike) (b.matchMouse x y) (b'.matchMouse x y) := by
  have hfind : ∀ {rs rs' : List MouseRegion}, List.Forall₂ lk.RegionLike rs rs' →
      Agree True Eq (Option.Rel lk.RegionLike) (MouseRegion.find? x y rs) (MouseRegion.find? x y rs') := by
    intro rs rs' hrs
    induction hrs with
    | nil => exact .none
    | @cons r r' rs rs' hr _ ih =>
      have hcontains : r.contains x y = r'.contains x y := by
        cases hr
        rfl
      simp only [MouseRegion.find?, hcontains]
      cases r'.contains x y with
      | error e => exact fun _ => rfl
      | ok found =>
        cases found with
        | true => exact Option.Rel.some hr
        | false => exact ih
  exact hfind (List.rel_reverse hb.mouse)

theorem BindingsLike.find?_like (hb : lk.BindingsLike b b') (v : Value) :
    Option.Rel lk.word (b.keyboard.find? v) (b'.keyboard.find? v) := by
  have hfind := forall₂_find? (f := fun e => e.1.asKey = v.asKey) (g := fun e => e.1.asKey = v.asKey) hb.keyboard
    (by rintro _ _ ⟨k, -⟩; rfl)
  unfold KeyTable.find?
  generalize List.find? _ b.keyboard = e, List.find? _ b'.keyboard = e' at hfind ⊢
  rcases hfind with ⟨k, hl⟩ | _
  · exact .some hl
  · exact .none

theorem BindingsLike.matchKey_like (hb : lk.BindingsLike b b') (code char : Datum) (ctrl : Bool) :
    Agree True Eq (Option.Rel lk.word) (b.matchKey code char ctrl) (b'.matchKey code char ctrl) := by
  have hcode : Agree True Eq (Option.Rel lk.word) (b.matchCode code) (b'.matchCode code) := by
    unfold Bindings.matchCode
    split
    · exact Option.Rel.none
    · exact Option.Rel.none
    · exact hb.find?_like _
    · exact fun _ => rfl
  have hchar : Agree True Eq (Option.Rel lk.word) (b.matchChar char ctrl) (b'.matchChar char ctrl) := by
    unfold Bindings.matchChar
    split
    · exact Option.Rel.none
    split
    · split
      · exact hb.find?_like _
      · exact Option.Rel.none
    · exact fun _ => rfl
    · exact fun _ => rfl
    · exact Option.Rel.none
  refine Agree.bind hcode fun l l' hl => ?_
  cases hl with
  | some hl => exact Option.Rel.some hl
  | none => exact hchar

theorem BindingsLike.matchMenu_like (hb : lk.BindingsLike b b') (id : Datum) :
    Agree True Eq (Option.Rel lk.word) (b.matchMenu id) (b'.matchMenu id) := by
  have hitems : List.Forall₂ lk.ItemLike b.menu.items b'.menu.items := by
    refine List.rel_flatMap hb.menu fun popup popup' hpopup => .cons hpopup.item ?_
    exact List.rel_filterMap (fun _ _ h => h) hpopup.members
  unfold Bindings.matchMenu
  split
  · rename_i v _
    have hfind := forall₂_find? (f := fun i => .int i.id = v) (g := fun i => .int i.id = v) hitems
      fun i i' hi => by rw [hi.id]
    generalize b.menu.items.find? _ = i, b'.menu.items.find? _ = i' at hfind ⊢
    rcases hfind with hi | _
    · exact hi.label
    · exact Option.Rel.none
  · exact Option.Rel.none
  · exact fun _ => rfl

end

namespace EngineLike

variable (hg : lk.EngineLike g g') {s s' : State}

include hg

theorem wakeAt_like (hs : lk.StateLike s s') {l l' : Option String} (hl : Option.Rel lk.word l l') :
    Agree True lk.TrapLike (Option.Rel lk.StateLike) (g.wakeAt s l) (g'.wakeAt s' l') := by
  cases hl with
  | none => exact Option.Rel.none
  | some hl =>
    refine Agree.bind ((target_agree hg.program.labels hl .none).mapError fun _ _ he => .error he) ?_
    rintro t _ rfl
    exact Option.Rel.some (hs.jump t).wake

theorem react_like (hs : lk.StateLike s s') (i : Input) :
    Agree True lk.TrapLike (Option.Rel lk.StateLike) (g.react s i) (g'.react s' i) := by
  cases i with
  | click x y =>
    refine Agree.bind ((hs.bindings.matchMouse_like x y).mapError fun _ _ _ => .misfit) fun r r' hr => ?_
    cases hr with
    | none => exact Option.Rel.none
    | some hr =>
      obtain ⟨_, _, _, _, hl, hvx, hvy⟩ := hr
      exact hg.wakeAt_like ((hs.set hvx _).set hvy _) (.some hl)
  | key code char ctrl =>
    refine Agree.bind ((hs.bindings.matchKey_like code char ctrl).mapError fun _ _ _ => .misfit) fun l l' hl => ?_
    exact hg.wakeAt_like hs hl
  | menu id =>
    refine Agree.bind ((hs.bindings.matchMenu_like id).mapError fun _ _ _ => .misfit) fun l l' hl => ?_
    exact hg.wakeAt_like hs hl
  | timeout =>
    simp only [Engine.react, hs.timeout]
    split
    · exact Option.Rel.some hs.advance.wake
    · exact Option.Rel.none
  | quit => exact Option.Rel.none

variable (hh : lk.HostLike W h h')

include hh

theorem resume_like (fuel : Nat) (e : Event) (hm : lk.MachineLike W m m') :
    lk.OutcomeLike W (g.resume h fuel e m) (g'.resume h' fuel e m') := by
  unfold Engine.resume
  rw [hm.state.status]
  split
  · exact ⟨hm, rfl⟩
  · split
    · exact ⟨⟨hm.state, hh.note (.same _) hm.world⟩, rfl⟩
    · exact ⟨hm, fun _ => .misfit⟩
    · exact ⟨⟨hm.state.terminate, hh.note (.same _) hm.world⟩, rfl⟩
    · rename_i i _ _
      rcases (hg.react_like hm.state i).cases with ⟨r, r', hr, hr', hlike⟩ | ⟨t, t', ht, ht', hlike⟩ | ⟨_, _, _, _, hstrict⟩
      · rw [hr, hr']
        cases hlike with
        | none => exact ⟨hm, rfl⟩
        | some hs => exact hg.run_like hh fuel ⟨hs, hm.world⟩
      · rw [ht, ht']
        exact ⟨hm, hlike⟩
      · exact absurd trivial hstrict

theorem apply_like (hword : ∀ a, lk.word a a) (op : Op) (hm : lk.MachineLike W m m') :
    lk.OutcomeLike W (g.apply h m op) (g'.apply h' m' op) := by
  cases op with
  | step => exact hg.step_like hh hm
  | run fuel => exact hg.run_like hh fuel hm
  | resume fuel e => exact hg.resume_like hh fuel e hm
  | assign name value => exact ⟨⟨hm.state.set (hword name) value, hm.world⟩, rfl⟩

theorem after_like (hword : ∀ a, lk.word a a) (ops : List Op) (hm : lk.MachineLike W m m') :
    lk.MachineLike W (g.after h m ops) (g'.after h' m' ops) := by
  induction ops generalizing m m' with
  | nil => exact hm
  | cons op ops ih => exact ih (hg.apply_like hh hword op hm).machine

end EngineLike

/-! ## Whole runs -/

/-- Worlds that correspond, with records of requests that are alike one by one. -/
def Recording (lk : Likeness) (W : σ → σ' → Prop) (w : List Request × σ) (w' : List Request × σ') : Prop :=
  List.Forall₂ lk.RequestLike w.1 w'.1 ∧ W w.2 w'.2

theorem HostLike.recorded (hh : lk.HostLike W h h') : lk.HostLike (lk.Recording W) h.recorded h'.recorded where
  answer hr hw := hh.answer hr hw.2
  call hr hw := ⟨List.rel_append hw.1 (.cons hr .nil), hh.call hr hw.2⟩
  note hr hw := ⟨hw.1, hh.note hr hw.2⟩

/-- On hosts that answer alike, every operation of every run ends alike: in state, in requests and in the kind of
error. -/
def RunsAlike (lk : Likeness) (p p' : Program) : Prop :=
  ∀ (maxStack : Int) (trace : Bool) {σ σ' : Type} (W : σ → σ' → Prop) (h : Host σ) (h' : Host σ'), lk.HostLike W h h' →
    ∀ w w', W w w' → ∀ (ops : List Op) (op : Op),
      let g : Engine := { program := p, maxStack, trace }
      let g' : Engine := { program := p', maxStack, trace }
      lk.OutcomeLike (lk.Recording W) (g.apply h.recorded (g.after h.recorded ⟨{}, ([], w)⟩ ops) op)
        (g'.apply h'.recorded (g'.after h'.recorded ⟨{}, ([], w')⟩ ops) op)

theorem runsAlike (hword : ∀ a, lk.word a a) {p p' : Program} (hp : p.WellFormed) (hlike : lk.ProgramLike p p') :
    lk.RunsAlike p p' := by
  intro maxStack trace σ σ' W h h' hh w w' hw ops op g g'
  have hg : lk.EngineLike g g' := ⟨hp, hlike, rfl, rfl⟩
  have hstart : lk.MachineLike (lk.Recording W) ⟨{}, ([], w)⟩ ⟨{}, ([], w')⟩ :=
    ⟨⟨rfl, rfl, rfl, ⟨.nil, .nil, .nil⟩, rfl, rfl, rfl, .none⟩, .nil, hw⟩
  exact hg.apply_like hh.recorded hword op (hg.after_like hh.recorded hword ops hstart)

end Likeness

end GraphicsBatch
