import GraphicsBatch.Proofs.Converted

/-!
# Which value of an option wins

An option is given on the command line, in sections of configuration files, or nowhere. The last value on the command line
wins over all sections. Among the sections the last one wins in a fixed sequence: the main section first and then the
presets that the command line names, each with the presets that it names itself right before it.
-/

namespace GraphicsBatch.Config

open Noting (Gives)

/-! ## Tables -/

theorem lookup_cons_eq {α β : Type} [BEq α] [LawfulBEq α] [DecidableEq α] (e : α × β) (t : List (α × β)) (name : α) :
    (e :: t).lookup name = if name = e.1 then some e.2 else t.lookup name := by
  obtain ⟨k, v⟩ := e
  dsimp only
  by_cases h : name = k
  · simp [h]
  · simp [List.lookup_cons, h, beq_false_of_ne h]

namespace Table

/-- A table that has each name once. -/
def IsMap (t : Table) : Prop := (t.map Prod.fst).Nodup

instance (t : Table) : Decidable t.IsMap := inferInstanceAs (Decidable (t.map Prod.fst).Nodup)

theorem lookup_upsert {t : Table} {k name : String} {v : Option String} :
    (upsert k v t).lookup name = if name = k then some v else t.lookup name := by
  induction t with
  | nil => exact lookup_cons_eq (k, v) [] name
  | cons e t ih =>
    unfold upsert
    by_cases hk : e.1 = k
    · rw [if_pos (beq_iff_eq.mpr hk), lookup_cons_eq, lookup_cons_eq, hk]
      split <;> rfl
    · rw [if_neg (by simpa using hk), lookup_cons_eq, lookup_cons_eq, ih]
      by_cases hname : name = e.1
      · rw [if_pos hname, if_pos hname, if_neg (hname ▸ hk)]
      · rw [if_neg hname, if_neg hname]

theorem lookup_eq_none {β : Type} {t : List (String × β)} {name : String} (h : name ∉ t.map Prod.fst) :
    t.lookup name = none := by
  induction t with
  | nil => rfl
  | cons e t ih =>
    rw [List.map_cons, List.mem_cons, not_or] at h
    rw [lookup_cons_eq, if_neg h.1, ih h.2]

theorem mem_keys_upsert {t : Table} {k name : String} {v : Option String} (h : name ∈ (upsert k v t).map Prod.fst) :
    name = k ∨ name ∈ t.map Prod.fst := by
  induction t with
  | nil => exact .inl (List.mem_singleton.mp h)
  | cons e t ih =>
    unfold upsert at h
    split at h
    · exact .inr h
    · rw [List.map_cons, List.mem_cons] at h ⊢
      exact h.elim (.inr ∘ .inl) fun hmem => (ih hmem).imp_right .inr

theorem IsMap.upsert {t : Table} (h : t.IsMap) (k : String) (v : Option String) : IsMap (GraphicsBatch.upsert k v t) := by
  induction t with
  | nil => exact List.nodup_singleton k
  | cons e t ih =>
    obtain ⟨hfirst, hrest⟩ := List.nodup_cons.mp h
    unfold GraphicsBatch.upsert
    split
    · exact List.nodup_cons.mpr ⟨hfirst, hrest⟩
    · rename_i hne
      refine List.nodup_cons.mpr ⟨fun hmem => ?_, ih hrest⟩
      rcases mem_keys_upsert hmem with heq | hmem
      · exact hne (beq_iff_eq.mpr heq)
      · exact hfirst hmem

theorem IsMap.update {t : Table} (h : t.IsMap) (u : Table) : (t.update u).IsMap := by
  unfold Table.update
  induction u generalizing t with
  | nil => exact h
  | cons e u ih => exact ih (h.upsert e.1 e.2)

theorem mem_keys_update {t u : Table} {name : String} (h : name ∈ (t.update u).map Prod.fst) :
    name ∈ u.map Prod.fst ∨ name ∈ t.map Prod.fst := by
  unfold Table.update at h
  induction u generalizing t with
  | nil => exact .inr h
  | cons e u ih =>
    rcases ih h with hmem | hmem
    · exact .inl (List.mem_cons_of_mem _ hmem)
    · rcases mem_keys_upsert hmem with rfl | hmem
      · exact .inl List.mem_cons_self
      · exact .inr hmem

theorem lookup_update {t u : Table} (hu : u.IsMap) (name : String) :
    (t.update u).lookup name = (u.lookup name).or (t.lookup name) := by
  unfold Table.update
  induction u generalizing t with
  | nil => rfl
  | cons e u ih =>
    obtain ⟨hfirst, hrest⟩ := List.nodup_cons.mp hu
    rw [List.foldl_cons, ih hrest, lookup_upsert, lookup_cons_eq]
    by_cases hname : name = e.1
    · rw [if_pos hname, if_pos hname, lookup_eq_none (hname ▸ hfirst), Option.none_or, Option.some_or]
    · rw [if_neg hname, if_neg hname]

end Table

/-! ## The command line -/

theorem OptionName.ofName?_name (o : OptionName) : OptionName.ofName? o.name = some o := by
  cases o <;> decide

theorem OptionName.name_of_ofName? {name : String} {o : OptionName} (h : OptionName.ofName? name = some o) :
    o.name = name := by
  simpa using List.find?_some h

theorem OptionName.name_injective : Function.Injective OptionName.name := fun a b h =>
  Option.some.inj (by rw [← ofName?_name a, ← ofName?_name b, h])

theorem OptionName.name_ne_preset (o : OptionName) : o.name ≠ presetName := by
  cases o <;> decide

/-- What an argument gives, if it is none that ends the options: names with values. -/
def givenBy (arg : String) : List (String × String) :=
  match arg.toList with
  | '-' :: '-' :: rest =>
    [(String.ofList (rest.takeWhile (· ≠ '=')), String.ofList ((rest.dropWhile (· ≠ '=')).drop 1))]
  | '-' :: letters => letters.filterMap fun l => (shortOption? l).map fun r => (r.1.name, r.2)
  | _ => []

/-- All that a command line gives, in order. Nothing counts behind the end of the options. -/
def given (args : List String) : List (String × String) := (args.takeWhile (· ≠ "--")).flatMap givenBy

/-- The last value that a command line gives for a name. -/
def lastGiven (args : List String) (name : String) : Option String := (given args).reverse.lookup name

/-- An argument that is no option, if it is none that ends the options. -/
def wordsOf (arg : String) : List String :=
  match arg.toList with
  | '-' :: _ :: _ => []
  | _ => [arg]

/-- The arguments that are no options: behind the end of the options all of them. -/
def words (args : List String) : List String :=
  (args.takeWhile (· ≠ "--")).flatMap wordsOf ++ (args.dropWhile (· ≠ "--")).drop 1

/-- The names that mean something on a command line. -/
def IsOption (name : String) : Prop := (OptionName.ofName? name).isSome ∨ name = presetName

namespace CommandLine

/-- A command line after some options and some other words. The options lie over those before, and the first word is the
program. -/
structure Takes (c : CommandLine) (values : List (String × String)) (others : List String) (c' : CommandLine) : Prop where
  lookup : ∀ name, IsOption name → c'.options.lookup name = ((values.reverse.lookup name).map some).or (c.options.lookup name)
  isMap : c.options.IsMap → c'.options.IsMap
  names : (∀ k ∈ c.options.map Prod.fst, IsOption k) → ∀ k ∈ c'.options.map Prod.fst, IsOption k
  program : c'.program = c.program.or (others.head?.map unquote)

theorem Takes.refl (c : CommandLine) : c.Takes [] [] c := ⟨fun _ _ => rfl, id, id, (Option.or_none ..).symm⟩

theorem Takes.trans {c c' c'' : CommandLine} {xs ys : List (String × String)} {vs ws : List String} (h : c.Takes xs vs c')
    (h' : c'.Takes ys ws c'') : c.Takes (xs ++ ys) (vs ++ ws) c'' where
  lookup name hname := by
    rw [h'.lookup name hname, h.lookup name hname, List.reverse_append, List.lookup_append]
    cases ys.reverse.lookup name <;> rfl
  isMap hmap := h'.isMap (h.isMap hmap)
  names hnames := h'.names (h.names hnames)
  program := by
    rw [h'.program, h.program, List.head?_append, Option.or_assoc]
    cases vs.head? <;> rfl

theorem set_takes (c : CommandLine) {name : String} (hname : IsOption name) (value : String) :
    c.Takes [(name, value)] [] (c.set name value) where
  lookup key _ := by
    unfold set
    rw [Table.lookup_upsert, List.reverse_singleton, lookup_cons_eq]
    split <;> rfl
  isMap hmap := hmap.upsert name (some value)
  names hnames k hk := (Table.mem_keys_upsert hk).elim (· ▸ hname) (hnames k)
  program := (Option.or_none ..).symm

theorem positional_gives (c : CommandLine) (arg : String) :
    ∃ c', Gives (c.positional arg) c' ∧ c'.ended = c.ended ∧ c.Takes [] [arg] c' := by
  unfold positional
  cases hc : c.program with
  | some p => exact ⟨c, (Gives.warn _).bind (.pure c), rfl, fun _ _ => rfl, id, id, by rw [hc]; rfl⟩
  | none => exact ⟨_, .pure _, rfl, fun _ _ => rfl, id, id, by rw [hc]; rfl⟩

theorem long_gives (c : CommandLine) (arg : String) (rest : List Char) :
    ∃ c', Gives (c.long arg rest) c' ∧ c'.ended = c.ended ∧
      c.Takes [(String.ofList (rest.takeWhile (· ≠ '=')), String.ofList ((rest.dropWhile (· ≠ '=')).drop 1))] [] c' := by
  unfold long
  dsimp only
  split
  · rename_i hname
    exact ⟨_, .pure _, rfl, set_takes c hname _⟩
  · rename_i hname
    refine ⟨c, (Gives.warn _).bind (.pure c), rfl, ⟨fun name hoption => ?_, id, id, (Option.or_none ..).symm⟩⟩
    rw [List.reverse_singleton, lookup_cons_eq, if_neg (by rintro rfl; exact hname hoption)]
    rfl

theorem letter_gives (c : CommandLine) (l : Char) :
    ∃ c', Gives (c.letter l) c' ∧ c'.ended = c.ended ∧
      c.Takes ((shortOption? l).map fun r => (r.1.name, r.2)).toList [] c' := by
  unfold letter
  cases shortOption? l with
  | none => exact ⟨c, (Gives.warn _).bind (.pure c), rfl, .refl c⟩
  | some r => exact ⟨_, .pure _, rfl, set_takes c (.inl (by rw [OptionName.ofName?_name]; rfl)) _⟩

theorem letters_give (c : CommandLine) (ls : List Char) :
    ∃ c', Gives (ls.foldlM letter c) c' ∧ c'.ended = c.ended ∧
      c.Takes (ls.filterMap fun l => (shortOption? l).map fun r => (r.1.name, r.2)) [] c' := by
  induction ls generalizing c with
  | nil => exact ⟨c, .pure c, rfl, .refl c⟩
  | cons l ls ih =>
    obtain ⟨c₁, hgives, hended, htakes⟩ := letter_gives c l
    obtain ⟨c₂, hgives', hended', htakes'⟩ := ih c₁
    refine ⟨c₂, ?_, hended'.trans hended, ?_⟩
    · rw [List.foldlM_cons]
      exact hgives.bind hgives'
    · have hboth := htakes.trans htakes'
      rw [List.filterMap_cons]
      cases hl : shortOption? l with
      | none => simpa [hl] using hboth
      | some r => simpa [hl] using hboth

theorem add_gives {c : CommandLine} (hc : c.ended = false) {arg : String} (harg : arg ≠ "--") :
    ∃ c', Gives (c.add arg) c' ∧ c'.ended = false ∧ c.Takes (givenBy arg) (wordsOf arg) c' := by
  unfold add givenBy wordsOf
  rw [if_neg (by simp [hc])]
  split
  · rename_i hend
    exact absurd (String.toList_inj.mp hend) harg
  · rename_i rest _ hlong
    obtain ⟨c', hgives, hended, htakes⟩ := c.long_gives arg rest
    exact ⟨c', hgives, hended.trans hc, by simpa only [hlong] using htakes⟩
  · rename_i l ls _ hnot hletters
    obtain ⟨c', hgives, hended, htakes⟩ := c.letters_give (l :: ls)
    refine ⟨c', hgives, hended.trans hc, ?_⟩
    rw [hletters]
    split
    · rename_i heq
      cases heq
      exact (hnot rfl).elim
    · rename_i heq
      cases heq
      exact htakes
    · rename_i hnone
      exact (hnone _ rfl).elim
  · rename_i hnone hlong hletters
    obtain ⟨c', hgives, hended, htakes⟩ := c.positional_gives arg
    refine ⟨c', hgives, hended.trans hc, ?_⟩
    cases hlist : arg.toList with
    | nil => exact htakes
    | cons a as =>
      by_cases ha : a = '-'
      · -- A single hyphen is a word, like anything that starts with none.
        subst ha
        cases as with
        | nil => exact htakes
        | cons l ls => exact (hletters l ls hlist).elim
      · simpa [ha] using htakes

theorem add_ended {c : CommandLine} (hc : c.ended = true) (args : List String) :
    ∃ c', Gives (args.foldlM add c) c' ∧ c.Takes [] args c' := by
  induction args generalizing c with
  | nil => exact ⟨c, .pure c, .refl c⟩
  | cons arg args ih =>
    obtain ⟨c₁, hgives, hended, htakes⟩ := positional_gives c arg
    obtain ⟨c₂, hgives', htakes'⟩ := ih (hended.trans hc)
    refine ⟨c₂, ?_, htakes.trans htakes'⟩
    rw [List.foldlM_cons, add, if_pos hc]
    exact hgives.bind hgives'

theorem read_gives (args : List String) :
    ∃ c, Gives (CommandLine.read args) c ∧ CommandLine.Takes {} (given args) (words args) c := by
  have hread : ∀ c : CommandLine, c.ended = false →
      ∃ c', Gives (args.foldlM add c) c' ∧ c.Takes (given args) (words args) c' := by
    induction args with
    | nil => exact fun c _ => ⟨c, .pure c, .refl c⟩
    | cons arg args ih =>
      intro c hc
      unfold given words
      -- Behind `--` every argument is a word.
      by_cases harg : arg = "--"
      · have hstep : c.add arg = Pure.pure { c with ended := true } := by
          rw [harg, add, if_neg (by simp [hc])]
          rfl
        obtain ⟨c', hgives, htakes⟩ := add_ended (c := { c with ended := true }) rfl args
        refine ⟨c', ?_, ?_⟩
        · rw [List.foldlM_cons, hstep]
          exact (Gives.pure _).bind hgives
        · rw [List.takeWhile_cons_of_neg (by simpa using harg), List.dropWhile_cons_of_neg (by simpa using harg)]
          exact ⟨htakes.lookup, htakes.isMap, htakes.names, htakes.program⟩
      · obtain ⟨c₁, hgives, hended, htakes⟩ := add_gives hc harg
        obtain ⟨c₂, hgives', htakes'⟩ := ih c₁ hended
        refine ⟨c₂, ?_, ?_⟩
        · rw [List.foldlM_cons]
          exact hgives.bind hgives'
        · rw [List.takeWhile_cons_of_pos (by simpa using harg), List.dropWhile_cons_of_pos (by simpa using harg),
            List.flatMap_cons, List.flatMap_cons, List.append_assoc]
          exact htakes.trans htakes'
  exact hread {} rfl

end CommandLine

/-! ## Sections -/

/-- The presets that a section names. -/
def Table.presets (t : Table) : List String := splitItems (((t.lookup presetName).getD none).getD "")

/-- The sections that count for some names: under each section the presets that it names. `seen` are those that are
being expanded. -/
inductive Expands (sections : Sections) : List String → List String → List Table → Prop where
  | nil {seen : List String} : Expands sections seen [] []
  | repeated {seen : List String} {name : String} {names : List String} {rest : List Table} :
      name ∈ seen → Expands sections seen names rest → Expands sections seen (name :: names) rest
  | undefined {seen : List String} {name : String} {names : List String} {rest : List Table} :
      sections.lookup name = none → Expands sections seen names rest → Expands sections seen (name :: names) rest
  | defined {seen : List String} {name : String} {names : List String} {own : Table} {under rest : List Table} :
      name ∉ seen → sections.lookup name = some own → Expands sections (name :: seen) own.presets under →
      Expands sections seen names rest → Expands sections seen (name :: names) (under ++ own :: rest)

namespace Expands

variable {sections : Sections} {seen names : List String} {name : String} {first rest layers layers' : List Table}

theorem unique (h : Expands sections seen names layers) (h' : Expands sections seen names layers') : layers = layers' := by
  induction h generalizing layers' with
  | nil =>
    cases h'
    rfl
  | repeated hmem _ ih =>
    cases h' with
    | repeated _ hrest => exact ih hrest
    | undefined _ hrest => exact ih hrest
    | defined hnot => exact absurd hmem hnot
  | undefined hnone _ ih =>
    cases h' with
    | repeated _ hrest => exact ih hrest
    | undefined _ hrest => exact ih hrest
    | defined _ hsome =>
      rw [hnone] at hsome
      cases hsome
  | defined hnot hsome _ _ ihunder ihrest =>
    cases h' with
    | repeated hmem => exact absurd hmem hnot
    | undefined hnone =>
      rw [hsome] at hnone
      cases hnone
    | defined _ hsome' hunder hrest =>
      rw [hsome] at hsome'
      cases hsome'
      rw [ihunder hunder, ihrest hrest]

theorem cons (hfirst : Expands sections seen [name] first) (hrest : Expands sections seen names rest) :
    Expands sections seen (name :: names) (first ++ rest) := by
  cases hfirst with
  | repeated hmem hnil =>
    cases hnil
    exact .repeated hmem hrest
  | undefined hnone hnil =>
    cases hnil
    exact .undefined hnone hrest
  | defined hnot hsome hunder hnil =>
    cases hnil
    rw [List.append_assoc]
    exact .defined hnot hsome hunder hrest

end Expands

/-- The value of an option in the last table that mentions it. -/
def lastIn (layers : List Table) (name : String) : Option (Option String) := layers.reverse.findSome? (·.lookup name)

theorem lastIn_append (xs ys : List Table) (name : String) :
    lastIn (xs ++ ys) name = (lastIn ys name).or (lastIn xs name) := by
  unfold lastIn
  rw [List.reverse_append, List.findSome?_append]

/-- A table that holds the options of some layers over those of another table. -/
structure Table.Stacks (t : Table) (layers : List Table) (t' : Table) : Prop where
  isMap : t'.IsMap
  lookup : ∀ name, t'.lookup name = (lastIn layers name).or (t.lookup name)

/-- Sections that lie under each other, as many as `depth`: each names the next one as a preset, none is being expanded
and none comes twice. -/
inductive Nests (sections : Sections) : List String → String → Nat → Prop where
  | zero {seen : List String} {name : String} : Nests sections seen name 0
  | succ {seen : List String} {name preset : String} {own : Table} {depth : Nat} :
      name ∉ seen → sections.lookup name = some own → preset ∈ own.presets → Nests sections (name :: seen) preset depth →
      Nests sections seen name (depth + 1)

/-- Sections that are not being expanded. -/
def fresh (sections : Sections) (seen : List String) : Sections := sections.filter fun s => s.1 ∉ seen

variable {sections : Sections} {seen : List String} {name : String} {depth : Nat}

theorem mem_of_lookup {own : Table} (h : sections.lookup name = some own) : (name, own) ∈ sections := by
  obtain ⟨before, after, rfl, -⟩ := List.lookup_eq_some_iff.mp h
  simp

theorem fresh_cons_lt {own : Table} (hseen : name ∉ seen) (hname : sections.lookup name = some own) :
    (fresh sections (name :: seen)).length < (fresh sections seen).length := by
  have hfewer : fresh sections (name :: seen) = (fresh sections seen).filter fun s => s.1 ≠ name := by
    simp [fresh, List.filter_filter]
  rw [hfewer]
  refine List.length_filter_lt_length_iff_exists.mpr ⟨(name, own), ?_, by simp⟩
  simp [fresh, mem_of_lookup hname, hseen]

theorem Nests.le_length (h : Nests sections seen name depth) : depth ≤ (fresh sections seen).length := by
  induction h with
  | zero => exact Nat.zero_le _
  | succ hnot hsome _ _ ih => exact Nat.lt_of_le_of_lt ih (fresh_cons_lt hnot hsome)

theorem not_nests_of_length_lt (h : sections.length < depth) (seen : List String) (name : String) :
    ¬ Nests sections seen name depth := by
  intro hnests
  have hfresh : (fresh sections seen).length ≤ sections.length := List.length_filter_le ..
  have := hnests.le_length
  omega

/-- What becomes of a section: it has no expansion if presets nest too deep under it. -/
structure ExpandsTo (sections : Sections) (depth : Nat) (seen : List String) (name : String) (required : Bool) : Prop where
  deep : Nests sections seen name depth → Gives (expand sections depth seen name required).run none
  flat : ¬ Nests sections seen name depth →
    ∃ layers t, Expands sections seen [name] layers ∧ Gives (expand sections depth seen name required).run (some t) ∧
      Table.Stacks [] layers t

/-- The options of presets over those of a table. -/
def addPresets (sections : Sections) (depth : Nat) (seen names : List String) (t : Table) : OptionT Noting Table :=
  names.foldlM (fun (t : Table) (preset : String) => do return t.update (← expand sections depth seen preset true)) t

theorem addPresets_deep {names : List String} {t : Table} (h : ∀ name, ExpandsTo sections depth seen name true)
    (hdeep : ∃ name ∈ names, Nests sections seen name depth) : Gives (addPresets sections depth seen names t).run none := by
  induction names generalizing t with
  | nil => simp at hdeep
  | cons first names ih =>
    unfold addPresets at ih ⊢
    rw [List.foldlM_cons]
    by_cases hfirst : Nests sections seen first depth
    · exact (((h first).deep hfirst).bindNone _).bindNone _
    · obtain ⟨name, hname, hnests⟩ := hdeep
      have hmem : name ∈ names := (List.mem_cons.mp hname).resolve_left fun heq => hfirst (heq ▸ hnests)
      obtain ⟨_, u, -, hgives, -⟩ := (h first).flat hfirst
      exact (hgives.bindSome (f := fun v => pure (t.update v)) (.some _)).bindSome (ih ⟨name, hmem, hnests⟩)

theorem addPresets_flat {names : List String} {t : Table} (h : ∀ name, ExpandsTo sections depth seen name true)
    (hflat : ∀ name ∈ names, ¬ Nests sections seen name depth) (ht : t.IsMap) :
    ∃ layers t', Expands sections seen names layers ∧ Gives (addPresets sections depth seen names t).run (some t') ∧
      t.Stacks layers t' := by
  induction names generalizing t with
  | nil => exact ⟨[], t, .nil, .some t, ht, fun _ => rfl⟩
  | cons name names ih =>
    obtain ⟨hname, hnames⟩ := List.forall_mem_cons.mp hflat
    obtain ⟨first, u, hfirst, hgives, hstacks⟩ := (h name).flat hname
    obtain ⟨rest, t', hrest, hgives', hstacks'⟩ := ih hnames (ht.update u)
    refine ⟨first ++ rest, t', hfirst.cons hrest, ?_, hstacks'.isMap, fun key => ?_⟩
    · unfold addPresets
      rw [List.foldlM_cons]
      exact (hgives.bindSome (f := fun v => pure (t.update v)) (.some _)).bindSome hgives'
    · rw [hstacks'.lookup, lastIn_append, Table.lookup_update hstacks.isMap, hstacks.lookup]
      simp [Option.or_assoc]

theorem expand_seen (h : name ∈ seen) (depth : Nat) (required : Bool) :
    Gives (expand sections (depth + 1) seen name required).run (some []) := by
  rw [expand, if_pos h]
  exact (Gives.warn _).lift.bindSome (.some [])

theorem expand_undefined (hseen : name ∉ seen) (hnone : sections.lookup name = none) (depth : Nat) (required : Bool) :
    Gives (expand sections (depth + 1) seen name required).run (some []) := by
  rw [expand, if_neg hseen, hnone]
  cases required with
  | false => exact .some []
  | true => exact (Gives.warn _).lift.bindSome (.some [])

theorem expand_defined {own : Table} (hseen : name ∉ seen) (hown : sections.lookup name = some own) (depth : Nat)
    (required : Bool) : expand sections (depth + 1) seen name required =
      addPresets sections depth (name :: seen) own.presets [] >>= fun under => Pure.pure (under.update own) := by
  rw [expand, if_neg hseen, hown]
  rfl

theorem expand_expands (hmaps : ∀ s ∈ sections, s.2.IsMap) (depth : Nat) (seen : List String) (name : String)
    (required : Bool) : ExpandsTo sections depth seen name required := by
  induction depth generalizing seen name required with
  | zero => exact ⟨fun _ => .pure none, fun hnot => absurd .zero hnot⟩
  | succ depth ih =>
    have hpresets : ∀ preset, ExpandsTo sections depth (name :: seen) preset true := fun preset => ih _ _ _
    by_cases hseen : name ∈ seen
    · refine ⟨fun hnests => ?_, fun _ => ⟨[], [], .repeated hseen .nil, expand_seen hseen depth required, List.nodup_nil,
        fun _ => rfl⟩⟩
      cases hnests with
      | succ hnot => exact absurd hseen hnot
    cases hown : sections.lookup name with
    | none =>
      refine ⟨fun hnests => ?_, fun _ => ⟨[], [], .undefined hown .nil, expand_undefined hseen hown depth required,
        List.nodup_nil, fun _ => rfl⟩⟩
      cases hnests with
      | succ _ hsome =>
        rw [hown] at hsome
        cases hsome
    | some own =>
      constructor
      · intro hnests
        cases hnests with
        | succ _ hsome hpreset hnests =>
          rw [hown] at hsome
          cases hsome
          rw [expand_defined hseen hown]
          exact (addPresets_deep hpresets ⟨_, hpreset, hnests⟩).bindNone _
      · intro hflat
        have hunder : ∀ preset ∈ own.presets, ¬ Nests sections (name :: seen) preset depth :=
          fun preset hpreset hnests => hflat (.succ hseen hown hpreset hnests)
        obtain ⟨under, t, hunder, hgives, hstacks⟩ := addPresets_flat hpresets hunder (t := []) List.nodup_nil
        have hmap : own.IsMap := hmaps _ (mem_of_lookup hown)
        refine ⟨under ++ [own], t.update own, .defined hseen hown hunder .nil, ?_, hstacks.isMap.update own, fun key => ?_⟩
        · rw [expand_defined hseen hown]
          exact hgives.bindSome (.some _)
        · rw [Table.lookup_update hmap, hstacks.lookup, lastIn_append, Option.or_assoc]
          rw [show lastIn [own] key = own.lookup key by simp [lastIn]]

/-! ## The options that count -/

theorem sectionOptions_deep (hmaps : ∀ s ∈ sections, s.2.IsMap) {presets : List String}
    (h : ∃ name ∈ mainSection :: presets, Nests sections [] name depth) :
    Gives (sectionOptions depth sections presets).run none := by
  unfold sectionOptions
  by_cases hmain : Nests sections [] mainSection depth
  · exact ((expand_expands hmaps depth [] mainSection false).deep hmain).bindNone _
  · obtain ⟨name, hname, hnests⟩ := h
    have hmem : name ∈ presets := (List.mem_cons.mp hname).resolve_left fun heq => hmain (heq ▸ hnests)
    obtain ⟨_, t, -, hgives, -⟩ := (expand_expands hmaps depth [] mainSection false).flat hmain
    exact hgives.bindSome (addPresets_deep (fun name => expand_expands hmaps depth [] name true) ⟨name, hmem, hnests⟩)

theorem sectionOptions_flat (hmaps : ∀ s ∈ sections, s.2.IsMap) {presets : List String}
    (h : ∀ name ∈ mainSection :: presets, ¬ Nests sections [] name depth) :
    ∃ layers t, Expands sections [] (mainSection :: presets) layers ∧
      Gives (sectionOptions depth sections presets).run (some t) ∧ Table.Stacks [] layers t := by
  obtain ⟨hmain, hpresets⟩ := List.forall_mem_cons.mp h
  obtain ⟨first, t, hfirst, hgives, hstacks⟩ := (expand_expands hmaps depth [] mainSection false).flat hmain
  obtain ⟨rest, t', hrest, hgives', hstacks'⟩ :=
    addPresets_flat (fun name => expand_expands hmaps depth [] name true) hpresets hstacks.isMap
  refine ⟨first ++ rest, t', hfirst.cons hrest, hgives.bindSome hgives', hstacks'.isMap, fun key => ?_⟩
  rw [hstacks'.lookup, hstacks.lookup, lastIn_append, Option.or_assoc]

theorem recognised_gives (t : Table) : ∃ t', Gives (recognised t) t' ∧ t'.Sublist t ∧
    (∀ k ∈ t'.map Prod.fst, (OptionName.ofName? k).isSome) ∧ ∀ o : OptionName, t'.lookup o.name = t.lookup o.name := by
  induction t with
  | nil => exact ⟨[], .pure [], .slnil, by simp, fun _ => rfl⟩
  | cons e t ih =>
    obtain ⟨name, value⟩ := e
    obtain ⟨t', hgives, hsub, hnames, hlookup⟩ := ih
    rw [recognised]
    split
    · rename_i hpreset
      refine ⟨t', hgives, hsub.cons _, hnames, fun o => ?_⟩
      rw [hlookup, lookup_cons_eq, if_neg fun heq => o.name_ne_preset (heq.trans hpreset)]
    · split
      · rename_i hsome
        refine ⟨(name, value) :: t', hgives.bind (.pure _), hsub.cons_cons _, List.forall_mem_cons.mpr ⟨hsome, hnames⟩,
          fun o => ?_⟩
        rw [lookup_cons_eq, lookup_cons_eq, hlookup]
      · rename_i hnone
        refine ⟨t', (Gives.warn _).bind hgives, hsub.cons _, hnames, fun o => ?_⟩
        rw [hlookup, lookup_cons_eq, if_neg]
        rintro rfl
        exact hnone (by rw [OptionName.ofName?_name]; rfl)

theorem lookup_filter {t : Table} {p : String × Option String → Bool} {name : String} (h : ∀ v, p (name, v) = true) :
    (t.filter p).lookup name = t.lookup name := by
  induction t with
  | nil => rfl
  | cons e t ih =>
    by_cases he : p e = true
    · rw [List.filter_cons_of_pos he, lookup_cons_eq, lookup_cons_eq, ih]
    · rw [List.filter_cons_of_neg he, ih, lookup_cons_eq, if_neg]
      rintro rfl
      exact he (h e.2)

theorem lookup_filter_eq_none {t : Table} {p : String × Option String → Bool} {name : String}
    (h : ∀ v, p (name, v) = false) :
    (t.filter p).lookup name = none := by
  refine Table.lookup_eq_none fun hmem => ?_
  obtain ⟨e, he, rfl⟩ := List.mem_map.mp hmem
  exact absurd (List.mem_filter.mp he).2 (by simp [h e.2])

/-- The sections that a command line asks for: the main one and then the presets that it names last. -/
def asked (args : List String) : List String := mainSection :: splitItems ((lastGiven args presetName).getD "")

/-- Presets nest too deep under a section that is asked for. -/
def TooDeep (depth : Nat) (sections : Sections) (args : List String) : Prop :=
  ∃ name ∈ asked args, Nests sections [] name depth

theorem CommandLine.Takes.presets {args : List String} {c : CommandLine}
    (hc : CommandLine.Takes {} (given args) (words args) c) :
    ((c.options.lookup presetName).getD none).getD "" = (lastGiven args presetName).getD "" := by
  rw [hc.lookup presetName (.inr rfl)]
  unfold lastGiven
  cases (given args).reverse.lookup presetName <;> rfl

theorem resolve_deep (hmaps : ∀ s ∈ sections, s.2.IsMap) {args : List String} {c : CommandLine}
    (hc : CommandLine.Takes {} (given args) (words args) c) (h : TooDeep depth sections args) :
    Gives (resolve depth sections c).run none := by
  unfold resolve
  dsimp only
  rw [hc.presets]
  exact (sectionOptions_deep hmaps h).bindNone _

/-- What the command line gives last counts, or else the last layer that mentions the option. -/
theorem resolve_flat (hmaps : ∀ s ∈ sections, s.2.IsMap) {args : List String} {c : CommandLine}
    (hc : CommandLine.Takes {} (given args) (words args) c) (h : ¬ TooDeep depth sections args) :
    ∃ layers raw, Expands sections [] (asked args) layers ∧
      Gives (resolve depth sections c).run (some raw) ∧ (∀ k ∈ raw.map Prod.fst, (OptionName.ofName? k).isSome) ∧
      (∀ o ≠ OptionName.config, raw.lookup o.name = ((lastGiven args o.name).map some).or (lastIn layers o.name)) ∧
      raw.lookup OptionName.config.name = lastIn layers OptionName.config.name := by
  have hasked : ∀ name ∈ asked args, ¬ Nests sections [] name depth := fun name hname hnests => h ⟨name, hname, hnests⟩
  obtain ⟨layers, t, hlayers, hgives, hstacks⟩ := sectionOptions_flat hmaps hasked
  obtain ⟨t', hgives', hsub, hnames, hlookup⟩ := recognised_gives t
  have hline : (c.options.filter fun e => e.1 ≠ presetName && e.1 ≠ OptionName.config.name).Sublist c.options :=
    List.filter_sublist
  have hmap := (hc.isMap List.nodup_nil).sublist (hline.map Prod.fst)
  refine ⟨layers, t'.update (c.options.filter fun e => e.1 ≠ presetName && e.1 ≠ OptionName.config.name), hlayers, ?_,
    fun k hk => ?_, fun o ho => ?_, ?_⟩
  · unfold resolve
    dsimp only
    rw [hc.presets]
    exact hgives.bindSome (hgives'.lift.bindSome (.some _))
  · rcases Table.mem_keys_update hk with hmem | hmem
    · obtain ⟨e, he, rfl⟩ := List.mem_map.mp hmem
      obtain ⟨hmem, hpreset⟩ := List.mem_filter.mp he
      have hoption := hc.names (by simp) e.1 (List.mem_map_of_mem hmem)
      exact hoption.resolve_right (by simpa using (Bool.and_eq_true _ _).mp hpreset |>.1)
    · exact hnames k hmem
  · have hkeep : ∀ v : Option String, (decide (o.name ≠ presetName) && decide (o.name ≠ OptionName.config.name)) = true := by
      intro v
      simp [o.name_ne_preset, OptionName.name_injective.ne ho]
    rw [Table.lookup_update hmap, lookup_filter hkeep, hlookup, hstacks.lookup,
      hc.lookup o.name (.inl (by rw [OptionName.ofName?_name]; rfl))]
    simp [lastGiven]
  · rw [Table.lookup_update hmap, lookup_filter_eq_none (by simp), hlookup, hstacks.lookup]
    simp

/-- The options of a table, less the names that are no options. -/
def named (raw : Table) : List (OptionName × Option String) := raw.filterMap fun e => (OptionName.ofName? e.1).map (·, e.2)

theorem lookup_named (raw : Table) (o : OptionName) : (named raw).lookup o = raw.lookup o.name := by
  induction raw with
  | nil => rfl
  | cons e raw ih =>
    unfold named at ih ⊢
    rw [lookup_cons_eq]
    cases hname : OptionName.ofName? e.1 with
    | none =>
      have hne : o.name ≠ e.1 := by
        intro heq
        rw [← heq, OptionName.ofName?_name] at hname
        cases hname
      rw [List.filterMap_cons_none (by rw [hname]; rfl), if_neg hne, ih]
    | some o' =>
      rw [List.filterMap_cons_some (b := (o', e.2)) (by rw [hname]; rfl), lookup_cons_eq, ih,
        ← OptionName.name_of_ofName? hname]
      simp only [OptionName.name_injective.eq_iff]

theorem map_name_named {raw : Table} (h : ∀ k ∈ raw.map Prod.fst, (OptionName.ofName? k).isSome) :
    (named raw).map (·.1.name) = raw.map Prod.fst := by
  induction raw with
  | nil => rfl
  | cons e raw ih =>
    obtain ⟨hfirst, hrest⟩ := List.forall_mem_cons.mp h
    obtain ⟨o, ho⟩ := Option.isSome_iff_exists.mp hfirst
    unfold named at ih ⊢
    rw [List.filterMap_cons_some (b := (o, e.2)) (by rw [ho]; rfl), List.map_cons, List.map_cons, ih hrest,
      OptionName.name_of_ofName? ho]

theorem lookup_converted (entries : List (OptionName × Option String)) (o : OptionName) :
    (entries.map fun e => (e.1, converted e.1 e.2)).lookup o = (entries.lookup o).map (converted o) := by
  induction entries with
  | nil => rfl
  | cons e entries ih =>
    rw [List.map_cons, lookup_cons_eq, lookup_cons_eq, ih]
    by_cases ho : o = e.1
    · rw [if_pos ho, if_pos ho, ho, Option.map_some]
    · rw [if_neg ho, if_neg ho]

theorem convertAll_gives (raw : Table) :
    Gives (convertAll raw) ((named raw).map fun e => (e.1, converted e.1 e.2)) := by
  have hconvert : ∀ e : OptionName × Option String,
      Gives (convert e.1 e.2 >>= fun v => pure (e.1, v)) (e.1, converted e.1 e.2) :=
    fun e => (convert_gives e.1 e.2).bind (.pure _)
  exact Gives.mapM hconvert (named raw)

theorem Settings.read_deep {args : List String} {c : CommandLine} {user : Option String} {files : Files}
    (hc : Gives (CommandLine.read args) c)
    (hfiles : Gives (readFiles files (filesToRead files user c) builtInPresets) (.ok sections))
    (hraw : Gives (resolve depth sections c).run none) :
    Gives (Settings.read depth args user files) (.error .nestedTooDeep) :=
  hc.bind (hfiles.bind (hraw.bind (.pure _)))

theorem Settings.read_flat {args : List String} {c : CommandLine} {user : Option String} {files : Files} {raw : Table}
    (hc : Gives (CommandLine.read args) c)
    (hfiles : Gives (readFiles files (filesToRead files user c) builtInPresets) (.ok sections))
    (hraw : Gives (resolve depth sections c).run (some raw)) :
    Gives (Settings.read depth args user files)
      (.ok ⟨c.program, (named raw).map fun e => (e.1, converted e.1 e.2)⟩) :=
  hc.bind (hfiles.bind (hraw.bind ((convertAll_gives raw).bind (.pure _))))

/-- Settings follow one order of precedence, from the command line down to presets of presets, unless these nest too
deep. -/
theorem Settings.read_overrides (depth : Nat) (args : List String) {sections : Sections}
    (hmaps : ∀ s ∈ sections, s.2.IsMap) :
    ∃ c, Gives (CommandLine.read args) c ∧
      (TooDeep depth sections args → Gives (resolve depth sections c).run none ∧
        ∀ user files, Gives (readFiles files (filesToRead files user c) builtInPresets) (.ok sections) →
          Gives (Settings.read depth args user files) (.error .nestedTooDeep)) ∧
      (¬ TooDeep depth sections args → ∃ layers raw options, Gives (resolve depth sections c).run (some raw) ∧
        Gives (convertAll raw) options ∧ (∀ layers', Expands sections [] (asked args) layers' ↔ layers' = layers) ∧
        (∀ o ≠ OptionName.config, raw.lookup o.name = ((lastGiven args o.name).map some).or (lastIn layers o.name) ∧
          ∀ w, options.lookup o = some w ↔ ∃ v, raw.lookup o.name = some v ∧ Gives (convert o v) w) ∧
        ∀ user files, Gives (readFiles files (filesToRead files user c) builtInPresets) (.ok sections) →
          Gives (Settings.read depth args user files) (.ok { program := c.program, options })) ∧
      (sections.length < depth → ¬ TooDeep depth sections args) := by
  obtain ⟨c, hc, htakes⟩ := CommandLine.read_gives args
  refine ⟨c, hc, fun hdeep => ?_, fun hflat => ?_, ?_⟩
  · have hraw := resolve_deep hmaps htakes hdeep
    exact ⟨hraw, fun user files hfiles => read_deep hc hfiles hraw⟩
  · obtain ⟨layers, raw, hlayers, hraw, -, hlookup, -⟩ := resolve_flat hmaps htakes hflat
    refine ⟨layers, raw, _, hraw, convertAll_gives raw, fun layers' => ⟨fun h => h.unique hlayers, fun h => h ▸ hlayers⟩,
      fun o ho => ⟨hlookup o ho, fun w => ?_⟩, fun user files hfiles => read_flat hc hfiles hraw⟩
    rw [lookup_converted, lookup_named, Option.map_eq_some_iff]
    refine exists_congr fun v => and_congr_right fun _ => ⟨fun h => h ▸ convert_gives o v, fun h => ?_⟩
    exact (convert_gives o v).eq h
  · rintro hlength ⟨name, -, hnests⟩
    exact not_nests_of_length_lt hlength [] name hnests

def tangledMain : Table := [("preset", some "a"), ("caption", some "main")]
def tangledA : Table := [("preset", some "b,a"), ("caption", some "A"), ("debug", some "no")]
def tangledB : Table := [("preset", some "a"), ("debug", none), ("logfile", some "b.log")]

/-- Sections that name each other and themselves. -/
def tangled : Sections := [("oriel", tangledMain), ("a", tangledA), ("b", tangledB)]

theorem splitItems_eq (s : String) :
    splitItems s = (((s.toList.splitOnP (· == ',')).map String.ofList).map Text.strip).filter (· ≠ "") := by
  rw [splitItems, String.splitToList_of_valid]

theorem splitItems_a : splitItems "a" = ["a"] := by
  rw [splitItems_eq]
  decide +kernel

theorem splitItems_ba : splitItems "b,a" = ["b", "a"] := by
  rw [splitItems_eq]
  decide +kernel

theorem tangled_expands : Expands tangled [] ["oriel", "a"] [tangledB, tangledA, tangledMain, tangledB, tangledA] := by
  have hmain : tangledMain.presets = ["a"] := splitItems_a
  have ha : tangledA.presets = ["b", "a"] := splitItems_ba
  have hb : tangledB.presets = ["a"] := splitItems_a
  have hlookup : tangled.lookup "oriel" = some tangledMain ∧ tangled.lookup "a" = some tangledA ∧
      tangled.lookup "b" = some tangledB := by decide +kernel
  have hunderB : ∀ seen, Expands tangled ("b" :: "a" :: seen) tangledB.presets [] := by
    intro seen
    rw [hb]
    exact .repeated (by simp) .nil
  have hunderA : ∀ seen, "b" ∉ seen → Expands tangled ("a" :: seen) tangledA.presets [tangledB] := by
    intro seen hseen
    rw [ha]
    exact .defined (by simpa using hseen) hlookup.2.2 (hunderB seen) (.repeated (by simp) .nil)
  have hunderMain : Expands tangled ["oriel"] tangledMain.presets [tangledB, tangledA] := by
    rw [hmain]
    exact .defined (by simp) hlookup.2.1 (hunderA _ (by simp)) .nil
  exact .defined (by simp) hlookup.1 hunderMain (.defined (by simp) hlookup.2.1 (hunderA _ (by simp)) .nil)

/-- The last preset wins over the main section, and a section over its own presets. -/
theorem Settings.read_overrides_tangled : ∃ c raw,
    Gives (CommandLine.read ["--preset=b", "--preset=a", "-p", "--pedantic=off", "--", "--caption=late"]) c ∧
    Gives (resolve 4 tangled c).run (some raw) ∧ raw.lookup "caption" = some (some "A") ∧
    raw.lookup "debug" = some (some "no") ∧ raw.lookup "logfile" = some (some "b.log") ∧
    raw.lookup "pedantic" = some (some "off") ∧ raw.lookup "max-stack" = none := by
  have hpreset : lastGiven ["--preset=b", "--preset=a", "-p", "--pedantic=off", "--", "--caption=late"] presetName = some "a" := by
    decide +kernel
  have hmaps : ∀ s ∈ tangled, s.2.IsMap := by decide +kernel
  obtain ⟨c, hc, -, hflat, hshallow⟩ := Settings.read_overrides 4
    ["--preset=b", "--preset=a", "-p", "--pedantic=off", "--", "--caption=late"] hmaps
  obtain ⟨layers, raw, options, hraw, -, hlayers, hlookup, -⟩ := hflat (hshallow (by decide))
  rw [asked, hpreset, Option.getD_some, splitItems_a] at hlayers
  obtain rfl := (hlayers _).mp tangled_expands
  refine ⟨c, raw, hc, hraw, ?_, ?_, ?_, ?_, ?_⟩
  · exact (hlookup .caption (by decide)).1.trans (by decide +kernel)
  · exact (hlookup .debug (by decide)).1.trans (by decide +kernel)
  · exact (hlookup .logfile (by decide)).1.trans (by decide +kernel)
  · exact (hlookup .pedantic (by decide)).1.trans (by decide +kernel)
  · exact (hlookup .maxStack (by decide)).1.trans (by decide +kernel)

/-! ## A ladder of presets -/

/-- Names of any length. -/
def rung (k : Nat) : String := String.ofList (List.replicate (k + 1) 'a')

/-- Each section names the next one. -/
def ladder (n : Nat) : Sections := (List.range n).map fun k => (rung k, [(presetName, some (rung (k + 1)))])

theorem rung_injective : Function.Injective rung := by
  intro j k h
  have hlength := congrArg List.length (String.ofList_injective h)
  simpa using hlength

theorem splitItems_rung (k : Nat) : splitItems (rung k) = [rung k] := by
  have hchars : ∀ c ∈ (rung k).toList, c = 'a' := by simp [rung, List.mem_replicate]
  have hsplit : (rung k).toList.splitOnP (· == ',') = [(rung k).toList] :=
    List.splitOnP_eq_singleton fun c hc => by
      rw [hchars c hc]
      decide
  have hstrip : Text.strip (rung k) = rung k := by
    have hkeep : ∀ cs : List Char, (∀ c ∈ cs, c = 'a') → cs.dropWhile Text.isSpace = cs := by
      intro cs hcs
      refine List.dropWhile_eq_self_iff.mpr fun hlength => ?_
      rw [hcs _ (List.getElem_mem hlength)]
      decide +kernel
    unfold Text.strip Text.trimRight Text.trimLeft
    rw [hkeep _ hchars, hkeep _ (by simpa using hchars), List.reverse_reverse, String.ofList_toList]
  have hne : rung k ≠ "" := by
    intro h
    simpa [rung] using congrArg String.toList h
  rw [splitItems_eq, hsplit]
  simp [hstrip, hne]

theorem lookup_ladder {n k : Nat} (h : k < n) :
    (ladder n).lookup (rung k) = some [(presetName, some (rung (k + 1)))] := by
  have hmem : k ∈ List.range n := List.mem_range.mpr h
  unfold ladder
  generalize List.range n = ks at hmem
  induction ks with
  | nil => cases hmem
  | cons j ks ih =>
    rw [List.map_cons, lookup_cons_eq]
    by_cases hj : k = j
    · rw [if_pos (by rw [hj]), hj]
    · rw [if_neg fun heq => hj (rung_injective heq)]
      exact ih ((List.mem_cons.mp hmem).resolve_left hj)

theorem ladder_isMap (n : Nat) : ∀ s ∈ ladder n, s.2.IsMap := by
  intro s hs
  obtain ⟨k, -, rfl⟩ := List.mem_map.mp hs
  exact List.nodup_singleton _

theorem ladder_nests {n k depth : Nat} {seen : List String} (hn : k + depth ≤ n) (hseen : ∀ s ∈ seen, ∃ j < k, s = rung j) :
    Nests (ladder n) seen (rung k) depth := by
  induction depth generalizing k seen with
  | zero => exact .zero
  | succ depth ih =>
    have hnot : rung k ∉ seen := by
      intro hmem
      obtain ⟨j, hj, heq⟩ := hseen _ hmem
      exact absurd (rung_injective heq) (by omega)
    have hpreset : rung (k + 1) ∈ Table.presets [(presetName, some (rung (k + 1)))] := by
      unfold Table.presets
      simp [splitItems_rung]
    refine .succ hnot (lookup_ladder (by omega)) hpreset (ih (by omega) ?_)
    intro s hs
    rcases List.mem_cons.mp hs with rfl | hs
    · exact ⟨k, by omega, rfl⟩
    · obtain ⟨j, hj, rfl⟩ := hseen s hs
      exact ⟨j, by omega, rfl⟩

theorem ladder_tooDeep (depth : Nat) : TooDeep depth (ladder depth) ["--preset=a"] := by
  have hasked : asked ["--preset=a"] = [mainSection, "a"] := by
    have hlast : lastGiven ["--preset=a"] presetName = some "a" := by decide +kernel
    rw [asked, hlast, Option.getD_some, splitItems_a]
  refine ⟨rung 0, ?_, ladder_nests (by omega) (by simp)⟩
  rw [hasked]
  exact List.mem_cons_of_mem _ (List.mem_singleton.mpr rfl)

/-- A ladder as long as presets may nest is too deep. -/
theorem resolve_ladder : ∃ c, Gives (CommandLine.read ["--preset=a"]) c ∧
    Gives (resolve nestingLimit (ladder nestingLimit) c).run none := by
  obtain ⟨c, hc, htakes⟩ := CommandLine.read_gives ["--preset=a"]
  exact ⟨c, hc, resolve_deep (ladder_isMap nestingLimit) htakes (ladder_tooDeep nestingLimit)⟩

end GraphicsBatch.Config
