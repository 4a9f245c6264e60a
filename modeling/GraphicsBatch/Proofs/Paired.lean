import GraphicsBatch.Proofs.Spelled
import GraphicsBatch.Proofs.Counterparts
import GraphicsBatch.Engine.Plan

/-!
# Statements that are alike do alike

Statements that correspond, carried out in states that correspond, ask the same of the host up to the spelling of names,
and leave states that correspond again. Where one of them is refused so is the other, for the same reason.
-/

namespace GraphicsBatch

theorem Agree.mapError {ε ε' δ δ' α α' : Type} {E : ε → ε' → Prop} {D : δ → δ' → Prop} {R : α → α' → Prop}
    {x : Except ε α} {x' : Except ε' α'} {f : ε → δ} {f' : ε' → δ'} (h : Agree True E R x x')
    (hf : ∀ e e', E e e' → D (f e) (f' e')) : Agree True D R (x.mapError f) (x'.mapError f') := by
  rcases h.cases with ⟨a, a', rfl, rfl, hR⟩ | ⟨e, e', rfl, rfl, hE⟩ | ⟨_, _, _, _, hstrict⟩
  · exact hR
  · exact fun _ => hf e e' (hE trivial)
  · exact absurd trivial hstrict

namespace Likeness

variable (lk : Likeness)

/-! ## Bindings and states -/

inductive RegionLike : MouseRegion → MouseRegion → Prop where
  | mk (x1 y1 x2 y2 : Int) {l l' vx vx' vy vy' : String} : lk.word l l' → lk.word vx vx' → lk.word vy vy' →
      RegionLike ⟨x1, y1, x2, y2, l, vx, vy⟩ ⟨x1, y1, x2, y2, l', vx', vy'⟩

inductive KeyLike : Value × String → Value × String → Prop where
  | mk (k : Value) {l l' : String} : lk.word l l' → KeyLike (k, l) (k, l')

structure ItemLike (i i' : MenuItem) : Prop where
  id : i.id = i'.id
  name : lk.ValueLike i.name i'.name
  label : Option.Rel lk.word i.label i'.label

structure PopupLike (p p' : Popup) : Prop where
  item : lk.ItemLike p.item p'.item
  members : List.Forall₂ (Option.Rel lk.ItemLike) p.members p'.members

structure BindingsLike (b b' : Bindings) : Prop where
  mouse : List.Forall₂ lk.RegionLike b.mouse b'.mouse
  keyboard : List.Forall₂ lk.KeyLike b.keyboard b'.keyboard
  menu : List.Forall₂ lk.PopupLike b.menu b'.menu

/-- States that differ only in the spelling of names in the bindings and in the place of the last statement. -/
structure StateLike (s s' : State) : Prop where
  pc : s.pc = s'.pc
  vars : s.vars = s'.vars
  callStack : s.callStack = s'.callStack
  bindings : lk.BindingsLike s.bindings s'.bindings
  status : s.status = s'.status
  timeout : s.timeout = s'.timeout
  waitMode : s.waitMode = s'.waitMode
  lastPos : Option.Rel lk.place s.lastPos s'.lastPos

/-! ## Requests and refusals -/

inductive RequestLike : Request → Request → Prop where
  | checkEvents : RequestLike .checkEvents .checkEvents
  | forward (c : Command) {vs vs' : List Value} : List.Forall₂ lk.ValueLike vs vs' →
      RequestLike (.forward c vs) (.forward c vs')
  | bindMouse {r r' : MouseRegion} (mode : String) : lk.RegionLike r r' →
      RequestLike (.bindMouse r mode) (.bindMouse r' mode)
  | bindKey (k : Value) {l l' : String} : lk.word l l' → RequestLike (.bindKey k l) (.bindKey k l')
  | showMenu {menu menu' : Menu} : List.Forall₂ lk.PopupLike menu menu' → RequestLike (.showMenu menu) (.showMenu menu')

/-- Errors of one kind at places that correspond. -/
structure ErrorLike (e e' : ProgramError) : Prop where
  kind : e.kind = e'.kind
  pos : Option.Rel lk.place e.pos e'.pos

inductive HaltLike : Halt → Halt → Prop where
  | exit : HaltLike .exit .exit
  | interrupt : HaltLike .interrupt .interrupt
  | error {e e' : ProgramError} : lk.ErrorLike e e' → HaltLike (.error e) (.error e')
  | conversion (f : IntFault) : HaltLike (.conversion f) (.conversion f)

structure PlanLike (pl pl' : Plan) : Prop where
  prepared : lk.StateLike pl.prepared pl'.prepared
  requests : List.Forall₂ lk.RequestLike pl.requests pl'.requests
  complete (reply : Datum) : Agree True Eq lk.StateLike (pl.complete reply) (pl'.complete reply)

variable {lk} {s s' : State} {p p' : Program} {pos pos' : Position}

/-! ## Changes of the state -/

theorem get_eq {a b : String} (h : lk.word a b) (vs : Variables) : vs.get a = vs.get b := by
  simp only [NameTable.get, NameTable.find?, lk.upper_eq h]

namespace StateLike

theorem advance (h : lk.StateLike s s') : lk.StateLike s.advance s'.advance :=
  { h with pc := congrArg (· + 1) h.pc }

theorem jump (h : lk.StateLike s s') (t : Nat) : lk.StateLike (s.jump t) (s'.jump t) := { h with pc := rfl }

theorem terminate (h : lk.StateLike s s') : lk.StateLike s.terminate s'.terminate :=
  { h with status := rfl, timeout := rfl }

theorem suspend (h : lk.StateLike s s') (timeout : Option Int) :
    lk.StateLike (s.suspend timeout) (s'.suspend timeout) := { h with status := rfl, timeout := rfl }

theorem wake (h : lk.StateLike s s') : lk.StateLike s.wake s'.wake := { h with status := rfl, timeout := rfl }

theorem set (h : lk.StateLike s s') {a b : String} (hab : lk.word a b) (n : Int) :
    lk.StateLike (s.set a n) (s'.set b n) := by
  have hvars : s.vars.set a n = s'.vars.set b n := by simp only [NameTable.set, lk.upper_eq hab, h.vars]
  exact { h with vars := hvars }

theorem value_eq (h : lk.StateLike s s') {x y : Operand} (hxy : lk.OperandLike x y) : s.value x = s'.value y := by
  cases hxy with
  | literal n => rfl
  | var hab => simp only [State.value, get_eq hab, h.vars]

theorem resolve_like (h : lk.StateLike s s') {a b : Argument} (hab : lk.ArgumentLike a b) :
    lk.ValueLike (s.resolve a) (s'.resolve b) := by
  obtain ⟨kind, value⟩ := a
  obtain ⟨kind', value'⟩ := b
  obtain ⟨rfl, hvalue⟩ := hab
  cases hvalue with
  | var hxy =>
    cases kind with
    | integer | key =>
      simp only [State.resolve, get_eq hxy, h.vars]
      exact .int _
    | _ => exact .var hxy
  | int n => cases kind <;> exact .int n
  | text t => cases kind <;> exact .text t
  | token t => cases kind <;> exact .token t
  | key k => cases kind <;> exact .key k
  | label hxy => cases kind <;> exact .label hxy

theorem resolve_all (h : lk.StateLike s s') {args args' : List Argument} (hargs : List.Forall₂ lk.ArgumentLike args args') :
    List.Forall₂ lk.ValueLike (args.map s.resolve) (args'.map s'.resolve) := by
  rw [List.forall₂_map_left_iff, List.forall₂_map_right_iff]
  exact hargs.imp fun _ _ hab => h.resolve_like hab

end StateLike

/-! ## Tables -/

theorem ValueLike.of_int {v' : Value} {n : Int} (h : lk.ValueLike (.int n) v') : v' = .int n := by
  cases h
  rfl

theorem ArgumentLike.of_label {a' : Argument} {l : String} (h : lk.ArgumentLike ⟨.label, .label l⟩ a') :
    ∃ l', a' = ⟨.label, .label l'⟩ ∧ lk.word l l' := by
  obtain ⟨kind', value'⟩ := a'
  obtain ⟨rfl, hvalue⟩ := h
  cases hvalue with
  | label hl => exact ⟨_, rfl, hl⟩

theorem ArgumentLike.of_var {a' : Argument} {x : String} (h : lk.ArgumentLike ⟨.variable, .var x⟩ a') :
    ∃ x', a' = ⟨.variable, .var x'⟩ ∧ lk.word x x' := by
  obtain ⟨kind', value'⟩ := a'
  obtain ⟨rfl, hvalue⟩ := h
  cases hvalue with
  | var hx => exact ⟨_, rfl, hx⟩

theorem ArgumentLike.of_token {a' : Argument} {t : String} (h : lk.ArgumentLike ⟨.token, .token t⟩ a') :
    a' = ⟨.token, .token t⟩ := by
  obtain ⟨kind', value'⟩ := a'
  obtain ⟨rfl, hvalue⟩ := h
  cases hvalue
  rfl

theorem regionsOfArgs_like (hs : lk.StateLike s s') {n : Nat} {args args' : List Argument}
    (hargs : List.Forall₂ Slot.Holds
      (List.replicate n [Slot.int, Slot.int, Slot.int, Slot.int, Slot.lbl, Slot.var, Slot.var]).flatten args)
    (h : List.Forall₂ lk.ArgumentLike args args') :
    ∃ rs rs', MouseRegion.ofArgs (args.map s.resolve) = .ok rs ∧ MouseRegion.ofArgs (args'.map s'.resolve) = .ok rs' ∧
      List.Forall₂ lk.RegionLike rs rs' := by
  -- Both sides have the same number in a slot for integers.
  have hint : ∀ {a a' : Argument}, Slot.int.Holds a → lk.ArgumentLike a a' →
      ∃ n, s.resolve a = .int n ∧ s'.resolve a' = .int n := by
    intro a a' ha haa'
    obtain ⟨n, hn⟩ := ha.resolve_int (s := s)
    exact ⟨n, hn, (hn ▸ hs.resolve_like haa').of_int⟩
  induction n generalizing args args' with
  | zero =>
    cases hargs
    cases h
    exact ⟨[], [], rfl, rfl, .nil⟩
  | succ n ih =>
    rw [List.replicate_succ, List.flatten_cons] at hargs
    rcases hargs with _ | ⟨h1, _ | ⟨h2, _ | ⟨h3, _ | ⟨h4, _ | ⟨h5, _ | ⟨h6, _ | ⟨h7, hrest⟩⟩⟩⟩⟩⟩⟩
    rcases h with _ | ⟨e1, _ | ⟨e2, _ | ⟨e3, _ | ⟨e4, _ | ⟨e5, _ | ⟨e6, _ | ⟨e7, erest⟩⟩⟩⟩⟩⟩⟩
    obtain ⟨x1, hx1, hx1'⟩ := hint h1 e1
    obtain ⟨y1, hy1, hy1'⟩ := hint h2 e2
    obtain ⟨x2, hx2, hx2'⟩ := hint h3 e3
    obtain ⟨y2, hy2, hy2'⟩ := hint h4 e4
    obtain ⟨l, rfl⟩ := h5.of_lbl
    obtain ⟨l', rfl, hl⟩ := e5.of_label
    obtain ⟨vx, rfl⟩ := h6.of_var
    obtain ⟨vx', rfl, hvx⟩ := e6.of_var
    obtain ⟨vy, rfl⟩ := h7.of_var
    obtain ⟨vy', rfl, hvy⟩ := e7.of_var
    obtain ⟨rs, rs', hrs, hrs', hlike⟩ := ih hrest erest
    refine ⟨_, _, ?_, ?_, .cons (.mk x1 y1 x2 y2 hl hvx hvy) hlike⟩
    · simp only [List.map_cons, hx1, hy1, hx2, hy2, MouseRegion.ofArgs, hrs]
      rfl
    · simp only [List.map_cons, hx1', hy1', hx2', hy2', MouseRegion.ofArgs, hrs']
      rfl

theorem keysOfArgs_like (hs : lk.StateLike s s') {n : Nat} {args args' : List Argument}
    (hargs : List.Forall₂ Slot.Holds (List.replicate n [Slot.key, Slot.lbl]).flatten args)
    (h : List.Forall₂ lk.ArgumentLike args args') :
    ∃ keys keys', keysOfArgs (args.map s.resolve) = .ok keys ∧ keysOfArgs (args'.map s'.resolve) = .ok keys' ∧
      List.Forall₂ lk.KeyLike keys keys' := by
  -- A key is a number or a physical key, so it has no name that could be spelled in another way.
  have hkey : ∀ {a a' : Argument}, Slot.key.Holds a → lk.ArgumentLike a a' → s.resolve a = s'.resolve a' := by
    rintro ⟨kind, value⟩ ⟨kind', value'⟩ ⟨rfl, htakes⟩ ⟨rfl, hvalue⟩
    cases hvalue with
    | int n => rfl
    | key k => rfl
    | var hx => simp only [State.resolve, Slot.key, get_eq hx, hs.vars]
    | _ => simp [Slot.Takes, Slot.key] at htakes
  induction n generalizing args args' with
  | zero =>
    cases hargs
    cases h
    exact ⟨[], [], rfl, rfl, .nil⟩
  | succ n ih =>
    rw [List.replicate_succ, List.flatten_cons] at hargs
    rcases hargs with _ | ⟨h1, _ | ⟨h2, hrest⟩⟩
    rcases h with _ | ⟨e1, _ | ⟨e2, erest⟩⟩
    rename_i key _ _ _ _ _
    obtain ⟨l, rfl⟩ := h2.of_lbl
    obtain ⟨l', rfl, hl⟩ := e2.of_label
    obtain ⟨keys, keys', hkeys, hkeys', hlike⟩ := ih hrest erest
    refine ⟨_, _, ?_, ?_, .cons (.mk (s.resolve key) hl) hlike⟩
    · simp only [List.map_cons, keysOfArgs, hkeys]
      rfl
    · simp only [List.map_cons, keysOfArgs, hkeys', hkey h1 e1]
      rfl

theorem badKey?_eq {keys keys' : List (Value × String)} (h : List.Forall₂ lk.KeyLike keys keys') :
    badKey? keys = badKey? keys' := by
  induction h with
  | nil => rfl
  | cons hkey _ ih =>
    obtain ⟨k, -⟩ := hkey
    unfold badKey? at ih ⊢
    rw [List.findSome?_cons, List.findSome?_cons, ih]

theorem insert_like {t t' : KeyTable} (ht : List.Forall₂ lk.KeyLike t t') (k : Value) {l l' : String} (hl : lk.word l l') :
    List.Forall₂ lk.KeyLike (KeyTable.insert k l t) (KeyTable.insert k l' t') := by
  induction ht with
  | nil => exact .cons (.mk k hl) .nil
  | cons hfirst hrest ih =>
    obtain ⟨k₀, hl₀⟩ := hfirst
    simp only [KeyTable.insert]
    split
    · exact .cons (.mk k₀ hl) hrest
    · exact .cons (.mk k₀ hl₀) ih

theorem ofPairs_like {keys keys' : List (Value × String)} (h : List.Forall₂ lk.KeyLike keys keys') :
    List.Forall₂ lk.KeyLike (KeyTable.ofPairs keys) (KeyTable.ofPairs keys') := by
  have hstep : ∀ {t t' : KeyTable}, List.Forall₂ lk.KeyLike t t' →
      List.Forall₂ lk.KeyLike (keys.foldl (fun table e => KeyTable.insert e.1 e.2 table) t)
        (keys'.foldl (fun table e => KeyTable.insert e.1 e.2 table) t') := by
    induction h with
    | nil => exact id
    | cons hkey _ ih =>
      obtain ⟨k, hl⟩ := hkey
      exact fun ht => ih (insert_like ht k hl)
  exact hstep .nil

theorem labelOf_like {v v' : Value} (h : lk.ValueLike v v') :
    Option.Rel lk.word (Menu.labelOf v) (Menu.labelOf v') := by
  cases h with
  | label hl => exact .some hl
  | _ => exact .none

/-- Popups that are being filled. -/
def OpenedLike (lk : Likeness) (o o' : MenuItem × List Member) : Prop :=
  lk.ItemLike o.1 o'.1 ∧ List.Forall₂ (Option.Rel lk.ItemLike) o.2 o'.2

theorem menuBuild_like {k : Nat} {opened opened' : Option (MenuItem × List Member)} {vs vs' : List Value}
    (hopened : Option.Rel lk.OpenedLike opened opened') (h : List.Forall₂ lk.ValueLike vs vs') :
    Agree True (fun _ _ => True) (List.Forall₂ lk.PopupLike) (Menu.build k opened vs) (Menu.build k opened' vs') := by
  fun_induction Menu.build k opened vs generalizing opened' vs' with
  | case1 k =>
    cases hopened
    cases h
    exact .nil
  | case2 k name target rest ih =>
    cases hopened
    rcases h with _ | ⟨hname, _ | ⟨htarget, hrest⟩⟩
    exact ih (.some ⟨⟨rfl, hname, labelOf_like htarget⟩, .nil⟩) hrest
  | case3 k item members rest ih =>
    obtain @⟨-, ⟨item', members'⟩, hitem, hmembers⟩ := hopened
    rcases h with _ | ⟨hname, hrest⟩
    cases hname
    refine Agree.bind (ih .none hrest) fun menu menu' hmenu => ?_
    exact .cons ⟨hitem, List.rel_reverse hmembers⟩ hmenu
  | case4 k item members rest ih =>
    obtain @⟨-, ⟨item', members'⟩, hitem, hmembers⟩ := hopened
    rcases h with _ | ⟨hname, hrest⟩
    cases hname
    have hmembers' : List.Forall₂ (Option.Rel lk.ItemLike) (none :: members) (none :: members') := .cons .none hmembers
    rw [Menu.build]
    exact ih (.some ⟨hitem, hmembers'⟩) hrest
  | case5 k item members name target rest hclose hseparator ih =>
    obtain @⟨-, ⟨item', members'⟩, hitem, hmembers⟩ := hopened
    rcases h with _ | ⟨hname, _ | ⟨htarget, hrest⟩⟩
    rename_i name' target' rest'
    have hmember : lk.ItemLike ⟨k, name, Menu.labelOf target⟩ ⟨k, name', Menu.labelOf target'⟩ :=
      ⟨rfl, hname, labelOf_like htarget⟩
    have hmembers' : List.Forall₂ (Option.Rel lk.ItemLike) (some _ :: members) (some _ :: members') :=
      .cons (.some hmember) hmembers
    rw [Menu.build]
    · exact ih (.some ⟨hitem, hmembers'⟩) hrest
    · rintro rfl
      cases hname
      exact hclose rfl
    · rintro rfl
      cases hname
      exact hseparator rfl
  -- None of the patterns fits the values on one side, so none fits those on the other.
  | case6 vs k opened h1 h2 h3 h4 h5 =>
    rw [Menu.build]
    · exact fun _ => trivial
    · rintro rfl rfl
      cases hopened
      cases h
      exact h1 rfl rfl
    · rintro name target rest rfl rfl
      cases hopened
      rcases h with _ | ⟨-, _ | ⟨-, -⟩⟩
      exact h2 _ _ _ rfl rfl
    · rintro item members rest rfl rfl
      rcases hopened with hopened | _
      rcases h with _ | ⟨hname, -⟩
      cases hname
      exact h3 _ _ _ rfl rfl
    · rintro item members rest rfl rfl
      rcases hopened with hopened | _
      rcases h with _ | ⟨hname, -⟩
      cases hname
      exact h4 _ _ _ rfl rfl
    · rintro item members name target rest rfl rfl
      rcases hopened with hopened | _
      rcases h with _ | ⟨-, _ | ⟨-, -⟩⟩
      exact h5 _ _ _ _ _ rfl rfl

/-! ## Plans -/

theorem ErrorLike.mk_some {kind : ErrorKind} {detail detail' : String} (hpos : lk.place pos pos') :
    lk.ErrorLike { kind, detail, pos := some pos } { kind, detail := detail', pos := some pos' } := ⟨rfl, .some hpos⟩

theorem target_agree (hlabels : p.labels = p'.labels) {l l' : String} (hl : lk.word l l') {place place' : Option Position}
    (hpos : Option.Rel lk.place place place') :
    Agree True lk.ErrorLike Eq (p.target l place) (p'.target l' place') := by
  unfold Program.target
  rw [hlabels, lk.upper_eq hl]
  split
  · rfl
  · exact fun _ => ⟨rfl, hpos⟩

theorem refuse_like (kind : ErrorKind) (n : Int) (hpos : lk.place pos pos') :
    lk.HaltLike (refuse kind n pos) (refuse kind n pos') := by
  unfold refuse
  split
  · exact .error (.mk_some hpos)
  · exact .conversion _

theorem apply_agree (op : Operator) (a b : Int) : Agree True lk.ErrorLike Eq (op.apply a b) (op.apply a b) := by
  cases op with
  | divide =>
    simp only [Operator.apply, divide]
    split
    · exact fun _ => ⟨rfl, .none⟩
    · rfl
  | _ => rfl

theorem StateLike.eval_agree (h : lk.StateLike s s') {x y : Expr} (hxy : lk.ExprLike x y) (hpos : lk.place pos pos') :
    Agree True lk.HaltLike Eq (s.eval x pos) (s'.eval y pos') := by
  cases hxy with
  | one hfirst => exact h.value_eq hfirst
  | two op hfirst hsecond =>
    simp only [State.eval, h.value_eq hfirst, h.value_eq hsecond]
    refine Agree.bind ((apply_agree op _ _).mapError fun _ _ he => .error he) ?_
    rintro n _ rfl
    split
    · rfl
    · exact fun _ => refuse_like .overflow n hpos

namespace PlanLike

theorem quiet (h : lk.StateLike s s') {t t' : State} (ht : lk.StateLike t t') :
    lk.PlanLike (.quiet s t) (.quiet s' t') := ⟨h, .nil, fun _ => ht⟩

theorem asking (h : lk.StateLike s s') {rs rs' : List Request} (hrs : List.Forall₂ lk.RequestLike rs rs') {t t' : State}
    (ht : lk.StateLike t t') : lk.PlanLike (.asking s rs t) (.asking s' rs' t') := ⟨h, hrs, fun _ => ht⟩

end PlanLike

theorem planCall_like (hs : lk.StateLike s s') {c : Command} {args args' : List Argument}
    (hproper : c.signature.Admits args) (h : List.Forall₂ lk.ArgumentLike args args') (hpos : lk.place pos pos') :
    Agree True lk.HaltLike lk.PlanLike (planCall s c args pos) (planCall s' c args' pos') := by
  have hvalues := hs.resolve_all h
  have hforward : lk.RequestLike (.forward c (args.map s.resolve)) (.forward c (args'.map s'.resolve)) :=
    .forward c hvalues
  have hmisfit : lk.HaltLike misfit misfit := .error ⟨rfl, .none⟩
  unfold planCall
  dsimp only
  split
  · refine PlanLike.asking hs (.cons hforward .nil) ?_
    generalize args.map s.resolve = vs, args'.map s'.resolve = vs' at hvalues
    rcases hvalues with _ | ⟨hv, -⟩
    · exact hs.suspend _
    · cases hv <;> exact hs.suspend _
  · -- The answer goes to the variable that stands last.
    rcases hproper with _ | ⟨h1, _ | ⟨h2, _ | ⟨h3, _ | ⟨h4, _ | ⟨h5, _ | ⟨h6, ⟨⟩⟩⟩⟩⟩⟩⟩
    rcases h with _ | ⟨e1, _ | ⟨e2, _ | ⟨e3, _ | ⟨e4, _ | ⟨e5, _ | ⟨e6, ⟨⟩⟩⟩⟩⟩⟩⟩
    obtain ⟨x, rfl⟩ := h6.of_var
    obtain ⟨x', rfl, hx⟩ := e6.of_var
    refine ⟨hs, .cons (.forward _ ?_) .nil, fun reply => ?_⟩
    · exact hs.resolve_all (.cons e1 (.cons e2 (.cons e3 (.cons e4 (.cons e5 .nil)))))
    · cases hn : buttonNumber reply with
      | ok n =>
        simp only [hn]
        exact (hs.set hx n).advance
      | error f =>
        simp only [hn]
        exact fun _ => rfl
  · obtain ⟨n, hargs⟩ := hproper
    obtain ⟨rs, rs', hrs, hrs', hlike⟩ := regionsOfArgs_like hs hargs h
    rw [hrs, hrs']
    have hs₂ : lk.StateLike { s with bindings := s.bindings.setMouse rs } { s' with bindings := s'.bindings.setMouse rs' } :=
      { hs with bindings := { hs.bindings with mouse := hlike } }
    refine PlanLike.asking hs₂ (.cons hforward ?_) hs₂.advance
    rw [List.forall₂_map_left_iff, List.forall₂_map_right_iff, hs.waitMode]
    exact hlike.imp fun _ _ hr => .bindMouse _ hr
  · obtain ⟨n, hargs⟩ := hproper
    obtain ⟨keys, keys', hkeys, hkeys', hlike⟩ := keysOfArgs_like hs hargs h
    simp only [hkeys, hkeys', badKey?_eq hlike]
    split
    · exact fun _ => refuse_like .invalidKey _ hpos
    · have hs₂ : lk.StateLike { s with bindings := s.bindings.setKeyboard keys }
          { s' with bindings := s'.bindings.setKeyboard keys' } :=
        { hs with bindings := { hs.bindings with keyboard := ofPairs_like hlike } }
      refine PlanLike.asking hs₂ (.cons hforward ?_) hs₂.advance
      rw [List.forall₂_map_left_iff, List.forall₂_map_right_iff]
      refine hlike.imp fun _ _ hkey => ?_
      obtain ⟨k, hl⟩ := hkey
      exact .bindKey k hl
  · rcases (menuBuild_like (k := 1) .none hvalues).cases with ⟨menu, menu', hmenu, hmenu', hlike⟩ | ⟨e, e', he, he', -⟩ |
      ⟨_, _, _, _, hstrict⟩
    · simp only [Menu.ofArgs, hmenu, hmenu']
      have hs₂ : lk.StateLike { s with bindings := s.bindings.setMenu menu }
          { s' with bindings := s'.bindings.setMenu menu' } :=
        { hs with bindings := { hs.bindings with menu := hlike } }
      exact PlanLike.asking hs₂ (.cons hforward (.cons (.showMenu hlike) .nil)) hs₂.advance
    · simp only [Menu.ofArgs, he, he']
      exact fun _ => hmisfit
    · exact absurd trivial hstrict
  · rcases hproper with _ | ⟨h1, ⟨⟩⟩
    rcases h with _ | ⟨e1, ⟨⟩⟩
    obtain ⟨mode, -, rfl⟩ := Slot.Holds.of_token h1
    obtain rfl := e1.of_token
    have hs₂ : lk.StateLike { s with waitMode := mode } { s' with waitMode := mode } := { hs with waitMode := rfl }
    exact PlanLike.asking hs₂ (.cons hforward .nil) hs₂.advance
  · exact PlanLike.asking hs (.cons hforward .nil) hs.advance

theorem plan_like (hlabels : p.labels = p'.labels) (maxStack : Int) (hs : lk.StateLike s s') {st st' : Statement}
    (hproper : st.action.Proper) (h : lk.StatementLike st st') :
    Agree True lk.HaltLike lk.PlanLike (plan p maxStack s st) (plan p' maxStack s' st') := by
  obtain ⟨action, pos⟩ := st
  obtain ⟨action', pos'⟩ := st'
  obtain ⟨haction, hpos⟩ := h
  -- Both programs have their labels at the same indices.
  have htarget : ∀ {l l' : String}, lk.word l l' → Agree True lk.HaltLike Eq
      ((p.target l (some pos)).mapError Halt.error) ((p'.target l' (some pos')).mapError Halt.error) := fun hl =>
    (target_agree hlabels hl (.some hpos)).mapError fun _ _ he => .error he
  cases haction with
  | label _ => exact PlanLike.quiet hs hs.advance
  | plain c => exact PlanLike.asking hs (.cons (.forward c .nil) .nil) hs.advance
  | finish => exact PlanLike.quiet hs hs.terminate
  | goto hl =>
    refine Agree.bind (htarget hl) ?_
    rintro t _ rfl
    exact PlanLike.quiet hs (hs.jump t)
  | gosub hl =>
    simp only [plan, hs.callStack]
    split
    · exact fun _ => .error (.mk_some hpos)
    · refine Agree.bind (htarget hl) ?_
      rintro t _ rfl
      have hcall : lk.StateLike { s.jump t with callStack := s'.callStack.push (s.pc + 1) }
          { s'.jump t with callStack := s'.callStack.push (s'.pc + 1) } :=
        { hs.jump t with callStack := by rw [hs.pc] }
      exact PlanLike.quiet hs hcall
  | back =>
    simp only [plan, hs.callStack]
    split
    · exact PlanLike.quiet hs { hs.jump _ with callStack := rfl }
    · exact fun _ => .error (.mk_some hpos)
  | cond op t hx hy =>
    simp only [plan, hs.value_eq hx, hs.value_eq hy]
    refine PlanLike.quiet hs ?_
    split
    · exact hs.advance
    · exact hs.jump t
  | assign hv he =>
    refine Agree.bind (hs.eval_agree he hpos) ?_
    rintro n _ rfl
    exact PlanLike.quiet hs (hs.set hv n).advance
  | call c hargs => exact planCall_like hs hproper hargs hpos

end Likeness

end GraphicsBatch
