import GraphicsBatch.Engine.Host
import GraphicsBatch.World

/-! # The host that follows a script

It records what it is asked, answers message boxes from a list, and fails or shuts down where the
script says so.
-/

namespace GraphicsBatch

/-- Kinds of requests. -/
inductive Occasion where
  | check
  | mouse
  | key
  | menu
  | command (name : String)
deriving DecidableEq, Inhabited

def Request.occasion : Request → Occasion
  | checkEvents => .check
  | forward c _ => .command c.name
  | bindMouse _ _ => .mouse
  | bindKey _ _ => .key
  | showMenu _ => .menu

/-- A signal in place of the answer to one request of a kind. -/
structure Mishap where
  occasion : Occasion
  /-- It happens at the request of this number, counted from 1; at 0 it is over. -/
  turn : Nat
  signal : Signal
deriving DecidableEq, Inhabited

/-- What happens at a request, and the mishaps to come. Each mishap counts for itself, and one that
happens hides the request from those after it. -/
def Mishap.next (o : Occasion) : List Mishap → Option Signal × List Mishap
  | [] => (none, [])
  | m :: ms =>
    if m.occasion = o ∧ m.turn = 1 then (some m.signal, { m with turn := 0 } :: ms)
    else
      let m' := if m.occasion = o then { m with turn := m.turn - 1 } else m
      let (signal, ms') := Mishap.next o ms
      (signal, m' :: ms')

structure Scripted where
  world : World
  /-- Answers to message boxes to come; after them all answers are 1. -/
  replies : List Datum := []
  /-- How many checks for events pass before the host shuts down. -/
  closeAfter : Option Nat := none
  /-- How many checks for events have been made, apart from those that failed. -/
  checks : Nat := 0
  mishaps : List Mishap := []
  requests : Array Request := #[]
deriving Inhabited

namespace Scripted

def note (s : Scripted) (r : Record) : Scripted := { s with world := s.world.note r }

/-- Keeps a request. Checks for events are not kept. -/
def record (s : Scripted) (r : Request) : Scripted :=
  if r = .checkEvents then s else { s with requests := s.requests.push r }

/-- The answer of the script to a request. -/
def answer (s : Scripted) (r : Request) : Except Signal Datum × Scripted :=
  match r with
  | .checkEvents =>
    let closed := s.closeAfter.any (· ≤ s.checks)
    (if closed then .error .exit else .ok .none, { s with checks := s.checks + 1 })
  | .forward .messageBox _ =>
    match s.replies with
    | reply :: rest => (.ok reply, { s with replies := rest })
    | [] => (.ok (.int 1), s)
  | _ => (.ok .none, s)

def call (r : Request) (s : Scripted) : Except Signal Datum × Scripted :=
  match Mishap.next r.occasion s.mishaps with
  | (some signal, mishaps) => (.error signal, { s.record r with mishaps })
  | (none, mishaps) => answer { s.record r with mishaps } r

def host : Host Scripted where
  call
  note r s := s.note r

end Scripted

end GraphicsBatch
