import Mathlib
import GraphicsBatch.Config.Settings

/-!
# Values of options

The text of an option is converted to a value of the type of that option. What does not make sense is noted and gives a
value that says nothing, except that a switch is on then.
-/

namespace GraphicsBatch.Config

/-! ## Work that leaves notes -/

namespace Noting

variable {α β : Type}

/-- The value of some work, which does not depend on what was noted before. -/
def Gives (x : Noting α) (a : α) : Prop := ∀ log, (x.run log).1 = a

theorem Gives.pure (a : α) : Gives (Pure.pure a) a := fun _ => rfl

theorem Gives.bind {x : Noting α} {f : α → Noting β} {a : α} {b : β} (hx : Gives x a) (hf : Gives (f a) b) :
    Gives (x >>= f) b := by
  intro log
  have hrun : ((x >>= f).run log).1 = ((f (x.run log).1).run (x.run log).2).1 := rfl
  rw [hrun, hx log]
  exact hf _

theorem Gives.warn (message : String) : Gives (Config.warn message) () := fun _ => rfl

theorem Gives.eq {x : Noting α} {a b : α} (ha : Gives x a) (hb : Gives x b) : a = b := (ha {}).symm.trans (hb {})

theorem Gives.mapM {f : α → Noting β} {g : α → β} (h : ∀ a, Gives (f a) (g a)) (as : List α) :
    Gives (as.mapM f) (as.map g) := by
  induction as with
  | nil => exact .pure []
  | cons a as ih =>
    rw [List.mapM_cons]
    exact (h a).bind (ih.bind (.pure _))

/-! Work that may come to nothing. -/

theorem Gives.some (a : α) : Gives (Pure.pure a : OptionT Noting α).run (some a) := fun _ => rfl

theorem Gives.lift {x : Noting α} {a : α} (h : Gives x a) : Gives (liftM x : OptionT Noting α).run (Option.some a) :=
  fun log => congrArg Option.some (h log)

theorem Gives.bindSome {x : OptionT Noting α} {f : α → OptionT Noting β} {a : α} {r : Option β}
    (hx : Gives x.run (Option.some a)) (hf : Gives (f a).run r) : Gives (x >>= f).run r := by
  rw [OptionT.run_bind]
  exact Gives.bind hx hf

theorem Gives.bindNone {x : OptionT Noting α} (f : α → OptionT Noting β) (hx : Gives x.run none) :
    Gives (x >>= f).run none := by
  rw [OptionT.run_bind]
  exact Gives.bind hx (.pure none)

end Noting

open Noting (Gives)

/-! ## Conversions -/

theorem toFlag_gives (o : OptionName) (value : String) :
    Gives (toFlag o value) (decide (Text.upper value ∉ falseWords)) := by
  unfold toFlag
  dsimp only
  split
  · rename_i htrue
    have hnot : Text.upper value ∉ falseWords := by
      rcases htrue with rfl | htrue
      · decide
      · revert htrue
        generalize Text.upper value = word
        simp only [trueWords, falseWords, List.mem_cons, List.not_mem_nil, or_false]
        rintro (rfl | rfl | rfl | rfl) <;> decide
    rw [decide_eq_true hnot]
    exact .pure true
  · split
    · rename_i hfalse
      rw [decide_eq_false (not_not.mpr hfalse)]
      exact .pure false
    · rename_i hnot
      rw [decide_eq_true hnot]
      exact (Gives.warn _).bind (.pure true)

theorem toInt?_gives (o : OptionName) (value : String) : Gives (toInt? o value) (Text.readInt value).toOption := by
  unfold toInt?
  cases Text.readInt value with
  | ok n => exact .pure (some n)
  | error e =>
    dsimp only
    split
    · exact (Gives.warn _).bind (.pure none)
    · exact .pure none

theorem toChoice_gives (o : OptionName) (choices : List String) (value : String) :
    Gives (toChoice o choices value) (if Text.lower value ∈ choices then Text.lower value else "") := by
  unfold toChoice
  dsimp only
  split
  · exact .pure _
  · exact (Gives.warn _).bind (.pure "")

/-- The integers among the items of a list. -/
def integers (value : String) : List Int := (splitItems value).filterMap fun item => (Text.readInt item).toOption

theorem toInts_gives (o : OptionName) (count : Nat) (value : String) :
    Gives (toInts o count value) (if (integers value).length = count then integers value else []) := by
  have hitems : ((splitItems value).map fun item => (Text.readInt item).toOption).filterMap id = integers value := by
    rw [List.filterMap_map]
    rfl
  refine (Gives.mapM (toInt?_gives o) (splitItems value)).bind ?_
  dsimp only
  rw [hitems]
  split
  · rename_i hfits
    rcases hfits with hempty | hcount
    · rw [List.isEmpty_iff.mp hempty]
      split <;> exact .pure []
    · rw [if_pos hcount]
      exact .pure _
  · rename_i hmisfit
    rw [if_neg fun hcount => hmisfit (.inr hcount)]
    exact (Gives.warn _).bind (.pure [])

/-- The value of an option with a text. -/
def converted (o : OptionName) (raw : Option String) : OptionValue :=
  match o with
  | .debug | .help | .pedantic | .version => .flag (decide (Text.upper (raw.getD "") ∉ falseWords))
  | .maxStack => (Text.readInt (raw.getD "")).toOption.elim .none .int
  | .dimensions => .ints (if (integers (raw.getD "")).length = dimensionCount then integers (raw.getD "") else [])
  | .interface => .text (if Text.lower (raw.getD "") ∈ interfaceChoices then Text.lower (raw.getD "") else "")
  | .caption | .config | .logfile => .text (raw.getD "")

theorem convert_gives (o : OptionName) (raw : Option String) : Gives (convert o raw) (converted o raw) := by
  cases o with
  | debug | help | pedantic | version => exact (toFlag_gives _ _).bind (.pure _)
  | maxStack => exact (toInt?_gives _ _).bind (.pure _)
  | dimensions => exact (toInts_gives _ _ _).bind (.pure _)
  | interface => exact (toChoice_gives _ _ _).bind (.pure _)
  | caption | config | logfile => exact .pure _

end GraphicsBatch.Config
