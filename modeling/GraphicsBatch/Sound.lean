import GraphicsBatch.Number.Binary64

/-! # The beep -/

namespace GraphicsBatch.Sound

def mixerRate : Int := 22050
def beepFrequency : Int := 800
def beepDuration : Int := 250
def amplitude : Int := 8000

/-- How many samples a tone has in each channel. -/
def sampleCount (rate duration : Int) : Nat := (rate * duration / 1000).toNat

/-- Why there is no such tone. -/
inductive ToneFault where
  | divisionByZero
  | number (f : NumberFault)
deriving DecidableEq, Inhabited

def ToneFault.message : ToneFault → String
  | divisionByZero => "float division by zero"
  | number f => f.message

/-- A quotient of two numbers. -/
def quotient (a b : Float) : Except ToneFault Float :=
  if b == 0 then .error .divisionByZero else .ok (a / b)

/-- The sample of an index in a wave of some half period. -/
def sampleAt (halfPeriod : Float) (i : Nat) : Except ToneFault Int := do
  let q ← quotient (Float.ofNat i) halfPeriod
  let n ← (Binary64.truncate q).mapError .number
  return if n % 2 = 0 then amplitude else -amplitude

/-- Samples of a square wave, channels in turn. -/
def squareWave (rate channels : Int) (frequency : Float) (duration : Int) :
    Except ToneFault (List Int) := do
  let r ← (Binary64.ofInt rate).mapError .number
  let halfPeriod := (← quotient r frequency) / 2
  if channels ≤ 0 then return []
  let samples ← (List.range (sampleCount rate duration)).mapM (sampleAt halfPeriod)
  return samples.flatMap fun s => List.replicate channels.toNat s

/-- Each sample takes two bytes. -/
def byteCount (rate channels duration : Int) : Nat :=
  2 * (sampleCount rate duration * channels.toNat)

end GraphicsBatch.Sound
