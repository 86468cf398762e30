import Mathlib

/-!
# Remote controls on 433 MHz

The sense code of `hardware/radio/rfm12/ask_sense.c` and the sender of `rfm12_ask.c`, for the remote
codes of Tevion.  While no transmitter is active there is noise, and with it interrupts; a phase in
which a transmitter is active is one without interrupts.  Timer 0 counts the ticks.
-/

namespace Ethersex.Ask

/-! ## Ticks -/

section Ticks

variable (fCpu : Nat)

/-- `NS_PER_TICK`. -/
def nsPerTick : Nat := 256 * 1000000 / fCpu * 1000

/-- `US_TO_TICKS`. -/
def usToTicks (n : Nat) : Nat := n * 1000 / nsPerTick fCpu

/-- `MIN_TICKS`. -/
def minTicks : Nat := usToTicks fCpu 500

/-- `DEF_LIMIT_TICKS`. -/
def defLimitTicks : Nat := usToTicks fCpu 950

/-- `TIMEOUT_TICKS`. -/
def timeoutTicks : Nat := usToTicks fCpu 2000

end Ticks

/-- `WAIT_SAMPLES_NUM`. -/
def waitSamplesNum : UInt8 := 16

/-! ## The sense code -/

/-- A remote code. -/
structure Code where
  housecode : Fin 3 → UInt8
  command : Fin 2 → UInt8
  deriving DecidableEq

/-- A call of `ask_sense_try_decode`: the number of bits, and the code if there are 41. -/
structure Decode where
  bits : UInt8
  code : Option Code
  deriving DecidableEq

/-- The variables of the sense code, with the decodes so far.  `askBuf` has eight bytes. -/
structure Sense where
  lastNoiseTs : UInt8
  lastTxTs : UInt8
  overflow : Bool
  samplesMin : UInt8
  samplesMax : UInt8
  samplesNum : UInt8
  samplesLimit : UInt8
  askBuf : Nat → UInt8
  askBufBits : UInt8
  decodes : List Decode

/-- `DELTA`, converted to eight bits. -/
def delta (overflow : Bool) (new old : UInt8) : UInt8 :=
  if overflow then UInt8.ofNat (256 - old.toNat + new.toNat) else new - old

/-- `samples_learn`. -/
def samplesLearn (sample : UInt8) (sense : Sense) : Sense :=
  if sense.samplesNum > waitSamplesNum then sense
  else
    let least :=
      if sense.samplesNum = 0 ∨ sample < sense.samplesMin then sample else sense.samplesMin
    let greatest :=
      if sense.samplesNum = 0 ∨ sample > sense.samplesMax then sample else sense.samplesMax
    { sense with
      samplesMin := least
      samplesMax := greatest
      samplesNum := sense.samplesNum + 1
      samplesLimit :=
        if sense.samplesNum + 1 = waitSamplesNum then
          UInt8.ofNat ((least.toNat + greatest.toNat) / 2)
        else sense.samplesLimit }

/-- `LIMIT_TICKS`. -/
def limitTicks (fCpu : Nat) (sense : Sense) : Nat :=
  if sense.samplesNum < waitSamplesNum then defLimitTicks fCpu else sense.samplesLimit.toNat

/-- `TICKS_TO_BIT`. -/
def ticksToBit (fCpu : Nat) (ticks : UInt8) (sense : Sense) : Bool :=
  decide (ticks.toNat > limitTicks fCpu sense)

/-- `ASK_BUF_STORE`. -/
def askBufStore (bit : Bool) (sense : Sense) : Sense :=
  let index := if sense.askBufBits < 64 then (sense.askBufBits / 8).toNat else 0
  let mask : UInt8 := 1 <<< (7 - sense.askBufBits % 8)
  { sense with
    askBuf := Function.update sense.askBuf index
      ((sense.askBuf index &&& ~~~mask) ||| if bit then mask else 0)
    askBufBits := sense.askBufBits + 1 }

/-- A sample that is learnt, and the bit it stands for. -/
def takeSample (fCpu : Nat) (sample : UInt8) (sense : Sense) : Sense :=
  let sense := samplesLearn sample sense
  askBufStore (ticksToBit fCpu sample sense) sense

/-- `rfm12_ask_sense_start`, with the count of the timer. -/
def rfm12AskSenseStart (tcnt0 : UInt8) (sense : Sense) : Sense :=
  { sense with lastNoiseTs := tcnt0, askBufBits := 0, samplesNum := 0 }

/-- `ask_sense_decode_tevion`. -/
def askSenseDecodeTevion (askBuf : Nat → UInt8) : Code where
  housecode := fun i => askBuf i
  command := ![(askBuf 3 <<< 1) ||| (askBuf 4 >>> 7), (askBuf 4 <<< 1) ||| (askBuf 5 >>> 7)]

/-- `ask_sense_try_decode`. -/
def askSenseTryDecode (sense : Sense) : Sense :=
  let code := if sense.askBufBits = 41 then some (askSenseDecodeTevion sense.askBuf) else none
  { sense with
    decodes := sense.decodes ++ [⟨sense.askBufBits, code⟩]
    askBufBits := 0 }

/-- The interrupt of the timer overflow. -/
def vectorOverflow0 (sense : Sense) : Sense :=
  if sense.overflow ∧ sense.askBufBits ≠ 0 then askSenseTryDecode { sense with overflow := false }
  else { sense with overflow := true }

/-- The interrupt of the noise, with the count of the timer. -/
def rfm12AskintSignal (fCpu : Nat) (ts : UInt8) (sense : Sense) : Sense :=
  let passed := delta sense.overflow ts sense.lastNoiseTs
  let sense :=
    if passed.toNat > timeoutTicks fCpu ∧ sense.askBufBits ≠ 0 then
      { askSenseTryDecode sense with overflow := false }
    else sense
  if passed.toNat < minTicks fCpu ∨ passed.toNat > timeoutTicks fCpu then
    { sense with lastNoiseTs := ts }
  else
    let sense :=
      if sense.askBufBits ≠ 0 then
        takeSample fCpu (delta sense.overflow sense.lastNoiseTs sense.lastTxTs) sense
      else sense
    let sense := takeSample fCpu passed sense
    { sense with
      overflow := false
      lastNoiseTs := ts
      lastTxTs := ts }

inductive Event where
  | overflow
  | signal (tcnt0 : UInt8)

def Event.handle (fCpu : Nat) (sense : Sense) : Event → Sense
  | .overflow => vectorOverflow0 sense
  | .signal tcnt0 => rfm12AskintSignal fCpu tcnt0 sense

def handleAll (fCpu : Nat) (events : List Event) (sense : Sense) : Sense :=
  events.foldl (Event.handle fCpu) sense

/-! ## The sender -/

/-- `rfm12_ask_encode_byte`: the bits from the highest one on, 12 or 6 symbols long. -/
def rfm12AskEncodeByte (byte : UInt8) (cnt : Nat) : List Nat :=
  (List.range cnt).map fun i => if (byte &&& (1 <<< UInt8.ofNat (cnt - i - 1))) > 0 then 12 else 6

/-- The array `code` of `rfm12_ask_tevion_send`. -/
def tevionCode (code : Code) : List Nat :=
  rfm12AskEncodeByte (code.housecode 0) 8 ++ rfm12AskEncodeByte (code.housecode 1) 8 ++
    rfm12AskEncodeByte (code.housecode 2) 8 ++ [if (code.housecode 2 &&& 1) > 0 then 6 else 12] ++
    rfm12AskEncodeByte (code.command 0) 8 ++ rfm12AskEncodeByte (code.command 1) 8

/-- The calls of `rfm12_ask_trigger` for one frame: whether the transmitter is on, and for how many
microseconds.  The first phase is one with the transmitter on, and behind the last one is a pause. -/
def rfm12AskTevionSend (code : Code) (delay : UInt8) : List (Bool × Nat) :=
  (tevionCode code).mapIdx (fun i symbols => (decide (i % 2 = 0), symbols * delay.toNat)) ++
    [(false, 24 * delay.toNat)]

end Ethersex.Ask
