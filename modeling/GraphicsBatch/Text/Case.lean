import GraphicsBatch.Text.CaseTable
import GraphicsBatch.Text.LetterTable

/-! # Upper and lower case

Names are compared in upper case. ASCII letters stand for themselves; all other letters follow the
table, where one letter may become several.
-/

namespace GraphicsBatch.Text

/-- The other case of the letter at place `n`, if the run holds it. -/
def CaseRun.apply? (r : CaseRun) (n : Nat) : Option Nat :=
  if r.first ≤ n && n < r.first + r.count * r.step && (n - r.first) % r.step = 0 then
    some (n + r.shift).toNat
  else none

def mapByTable (runs : List CaseRun) (sequences : List (Nat × List Nat)) (c : Char) : List Char :=
  match sequences.lookup c.toNat with
  | some ns => ns.map Char.ofNat
  | none => [(runs.findSome? fun r => r.apply? c.toNat).elim c Char.ofNat]

def upperChar (c : Char) : List Char :=
  if c.toNat < 128 then [c.toUpper] else mapByTable upperRuns upperSequences c

def lowerChar (c : Char) : List Char :=
  if c.toNat < 128 then [c.toLower] else mapByTable lowerRuns lowerSequences c

def inRanges (ranges : List (Nat × Nat)) (c : Char) : Bool :=
  ranges.any fun r => r.1 ≤ c.toNat && c.toNat ≤ r.2

def isCased (c : Char) : Bool := inRanges casedRanges c

def isPassedOver (c : Char) : Bool := inRanges passedOverRanges c

def upper (s : String) : String := String.ofList (s.toList.flatMap upperChar)

/-- Whether a word goes on: the first character that counts is a letter. -/
def wordGoesOn (cs : List Char) : Bool := (cs.find? fun c => !isPassedOver c).any isCased

/-- Lower case of a run of characters. A sigma that ends a word has a form of its own. -/
def lowerFrom (inWord : Bool) : List Char → List Char
  | [] => []
  | c :: cs =>
    let l := if c = 'Σ' && inWord && !wordGoesOn cs then ['ς'] else lowerChar c
    l ++ lowerFrom (if isPassedOver c then inWord else isCased c) cs

def lower (s : String) : String := String.ofList (lowerFrom false s.toList)

end GraphicsBatch.Text
