import Mathlib

/-!
# Frames for a matrix of lamps

A datagram brings a frame in one of three formats.  `mcuf_newdata` copies the part of it that the
screen shows into a buffer, which is sent on.

A division by zero and an access to a pixel outside the datagram or outside a buffer are not defined.
-/

namespace Ethersex.Mcuf

/-- How the code is configured.  The screen is at least as large as each of the outputs (`mcuf.h`); its
rows and columns are counted in bytes, and the buffer is an object of the machine. -/
structure Config where
  MCUF_MAX_SCREEN_WIDTH : Nat
  MCUF_MAX_SCREEN_HEIGHT : Nat
  MCUF_OUTPUT_SCREEN_WIDTH : Nat
  MCUF_OUTPUT_SCREEN_HEIGHT : Nat
  MCUF_SERIAL_SCREEN_WIDTH : Nat
  MCUF_SERIAL_SCREEN_HEIGHT : Nat
  MCUF_OUTPUT_SUPPORT : Bool
  MCUF_SERIAL_SUPPORT : Bool
  LEDRG_SUPPORT : Bool
  MCUF_SERIAL_WORKAROUND_FOR_BAD_MCUF_UDP_PACKETS : Bool
  width_le : MCUF_MAX_SCREEN_WIDTH ≤ 255
  height_le : MCUF_MAX_SCREEN_HEIGHT ≤ 255
  output_width_le : MCUF_OUTPUT_SCREEN_WIDTH ≤ MCUF_MAX_SCREEN_WIDTH
  output_height_le : MCUF_OUTPUT_SCREEN_HEIGHT ≤ MCUF_MAX_SCREEN_HEIGHT
  size_lt : MCUF_MAX_SCREEN_WIDTH * MCUF_MAX_SCREEN_HEIGHT + 12 < 2 ^ 15

/-- `MCUF_MAX_PCKT_SIZE`. -/
def Config.MCUF_MAX_PCKT_SIZE (config : Config) : Nat :=
  config.MCUF_MAX_SCREEN_WIDTH * config.MCUF_MAX_SCREEN_HEIGHT + 12

/-- `uip_appdata`: a datagram, and what the memory holds behind it. -/
structure Packet where
  datagram : List UInt8
  behind : Nat → UInt8

namespace Packet

variable (packet : Packet)

def byte (place : Nat) : UInt8 := packet.datagram[place]?.getD (packet.behind place)

/-- A field of the header, in network byte order. -/
def field (place : Nat) : UInt16 := (packet.byte place).toUInt16 <<< 8 ||| (packet.byte (place + 1)).toUInt16

/-- `pkt->data[index]`. -/
def pixel (index : UInt16) : Option UInt8 := packet.datagram[12 + index.toNat]?

/-- `strncmp (uip_appdata, magic, 4) == 0`. -/
def startsWith (magic : List UInt8) : Bool := (List.range 4).map packet.byte = magic

end Packet

def mcufMagic : List UInt8 := [0x23, 0x54, 0x26, 0x66]

def eblpMagic : List UInt8 := [0xfe, 0xed, 0xbe, 0xef]

def blpMagic : List UInt8 := [0xde, 0xad, 0xbe, 0xef]

/-- `buffer` and `gdata`. -/
structure State (config : Config) where
  len : UInt8
  sent : UInt8
  data : Vector UInt8 config.MCUF_MAX_PCKT_SIZE
  gdata : Nat → Nat → UInt8

/-- What comes of a call: an access that is not defined, a loop that goes on, a frame that is not taken, or one
that is shown. -/
inductive Outcome (config : Config) where
  | undefined
  | running
  | dropped
  | shown (state : State config)

section Frames

variable {config : Config}

namespace State

/-- A byte of `buffer.data`. -/
def read (state : State config) (place : Nat) : Option UInt8 := state.data[place]?

def write (place : Nat) (value : UInt8) (state : State config) : Option (State config) :=
  if inside : place < config.MCUF_MAX_PCKT_SIZE then some { state with data := state.data.set place value }
  else none

/-- `buffer.data[12 + (x + (y * MCUF_MAX_SCREEN_WIDTH))] = value`. -/
def put (y x : Nat) (value : UInt8) : State config → Option (State config) :=
  write (12 + (x + y * config.MCUF_MAX_SCREEN_WIDTH)) value

/-- `gdata[y][x] = value`. -/
def putLed (y x : Nat) (value : UInt8) (state : State config) : Option (State config) :=
  if y < config.MCUF_MAX_SCREEN_HEIGHT ∧ x < config.MCUF_MAX_SCREEN_WIDTH then
    some { state with gdata := fun row column => if row = y ∧ column = x then value else state.gdata row column }
  else none

/-- `memset (buffer.data, 0, count)`. -/
def clear (count : Nat) (state : State config) : Option (State config) :=
  (List.range count).foldlM (fun state place => state.write place 0) state

/-- `mcuf_senddata`, up to the first byte that is sent. -/
def sendData (state : State config) : Option (State config) :=
  let state : State config :=
    if config.MCUF_OUTPUT_SUPPORT then
      let len := UInt8.ofNat (12 + config.MCUF_MAX_SCREEN_HEIGHT * config.MCUF_MAX_SCREEN_WIDTH)
      { state with
        len
        sent := if config.MCUF_SERIAL_SUPPORT then state.sent else len }
    else state
  if config.MCUF_SERIAL_SUPPORT then
    let header : List UInt8 := mcufMagic ++ [0x00, 0x08, 0x00, 0x12, 0x00, 0x01, 0x00, 0xff]
    let written := header.zipIdx.foldlM (fun state (item : UInt8 × Nat) => state.write item.2 item.1) state
    written.map fun state =>
      { state with
        len := UInt8.ofNat (12 + config.MCUF_SERIAL_SCREEN_HEIGHT * config.MCUF_SERIAL_SCREEN_WIDTH)
        sent := 1 }
  else some state

end State

/-- Two loops over rows and columns, with what is done for each pixel that is part of the frame. -/
def eachPixel (rows columns : Nat) (height width : UInt16)
    (pixel : Nat → Nat → State config → Option (State config)) (state : State config) : Option (State config) :=
  (List.range rows).foldlM (fun state y =>
    (List.range columns).foldlM (fun state x =>
      if height.toNat > y ∧ width.toNat > x then pixel y x state else some state) state) state

/-- The loops over the screen. -/
def eachScreenPixel (height width : UInt16) (pixel : Nat → Nat → State config → Option (State config)) :
    State config → Option (State config) :=
  eachPixel config.MCUF_MAX_SCREEN_HEIGHT config.MCUF_MAX_SCREEN_WIDTH height width pixel

/-- `x + (y * width)`, in 16 bits. -/
def offset (width : UInt16) (y x : Nat) : UInt16 := UInt16.ofNat x + UInt16.ofNat y * width

/-- One pixel of a frame of the format MCUF. -/
def mcufPixel (packet : Packet) (width channels : UInt16) (multiplier y x : Nat) (state : State config) :
    Option (State config) := do
  let index := offset width y x * channels
  if channels = 3 then
    let red ← packet.pixel (index + 0)
    let green ← packet.pixel (index + 1)
    let blue ← packet.pixel (index + 2)
    state.put y x (UInt8.ofNat ((red.toNat + green.toNat + blue.toNat) / 3 * multiplier))
  else if channels = 2 then
    let red ← packet.pixel (index + 0)
    let green ← packet.pixel (index + 1)
    let state ← state.put y x (UInt8.ofNat ((red.toNat + green.toNat) / 2 * multiplier))
    if config.LEDRG_SUPPORT then state.putLed y x (red + green) else some state
  else
    let value ← packet.pixel (index + 0)
    state.put y x (UInt8.ofNat (value.toNat * multiplier))

/-- One pixel that is on or off. -/
def blackPixel (packet : Packet) (width : UInt16) (y x : Nat) (state : State config) : Option (State config) := do
  let value ← packet.pixel (offset width y x)
  if value > 0 then state.put y x 255 else some state

/-- One pixel that has a shade of grey. -/
def greyPixel (packet : Packet) (width : UInt16) (y x : Nat) (state : State config) : Option (State config) := do
  let value ← packet.pixel (offset width y x)
  state.put y x value

/-- The colour of a lamp with a red and a green one. -/
def ledColor (tmp : UInt8) : UInt8 :=
  if tmp = 0 then 0
  else if tmp = 0xff then 0x03
  else if tmp > 0xEF then 0x33
  else if tmp > 0xDF then 0x21
  else if tmp > 0xCF then 0x12
  else if tmp > 0xBF then 0x11
  else if tmp > 0xAF then 0x31
  else if tmp > 0x9F then 0x13
  else if tmp > 0x8F then 0x22
  else if tmp > 0x7F then 0x32
  else if tmp > 0x6F then 0x23
  else if tmp > 0x5F then 0x30
  else if tmp > 0x4F then 0x20
  else if tmp > 0x3F then 0x10
  else if tmp > 0x2F then 0x03
  else if tmp > 0x1F then 0x33
  else if tmp > 0x0F then 0x02
  else 0x01

/-- The end of `mcuf_newdata`: with `LEDRG_SUPPORT` the frame is copied to the lamps. -/
def showLeds (height width : UInt16) (state : State config) : Option (State config) :=
  if config.LEDRG_SUPPORT then
    eachPixel config.MCUF_OUTPUT_SCREEN_HEIGHT config.MCUF_OUTPUT_SCREEN_WIDTH height width
      (fun y x state => do
        let tmp ← state.read (12 + (x + y * config.MCUF_MAX_SCREEN_WIDTH))
        state.putLed y x (ledColor tmp)) state
  else some state

/-- What the scan for a value above one has come to. -/
inductive Scan where
  | undefined
  | running
  | found (maxvalue : Nat)

/-- The scan of the workaround, with the bytes `x` and `y` and a number of steps. -/
def scan (packet : Packet) (height width : UInt16) : (steps : Nat) → (y x : UInt8) → Scan
  | 0, _, _ => .running
  | steps + 1, y, x =>
      if y.toNat < height.toNat then
        if x.toNat < width.toNat then
          match packet.pixel (offset width y.toNat x.toNat) with
          | none => .undefined
          | some value => if value > 1 then .found 255 else scan packet height width steps y (x + 1)
        else scan packet height width steps (y + 1) 0
      else .found 1

/-- A frame is copied and sent. -/
def showFrame (count : Nat) (height width : UInt16) (pixel : Nat → Nat → State config → Option (State config))
    (state : State config) : Outcome config :=
  let result := do
    let state ← state.clear count
    let state ← eachScreenPixel height width pixel state
    let state ← state.sendData
    showLeds height width state
  match result with
  | none => .undefined
  | some state => .shown state

/-- A frame of the format MCUF. -/
def newMcuf (packet : Packet) (state : State config) : Outcome config :=
  let height := packet.field 4
  let width := packet.field 6
  let channels := if packet.field 8 < 1 then 1 else packet.field 8
  let maxvalue := if packet.field 10 > 255 then 255 else packet.field 10
  if maxvalue = 0 then .undefined
  else
    let multiplier := 255 / maxvalue.toNat
    if (height * width).toNat > config.MCUF_MAX_PCKT_SIZE - 12 then .dropped
    else
      showFrame (12 + (height * width).toNat) height width (mcufPixel packet width channels multiplier) state

/-- A frame of the format EBLP. -/
def newEblp (steps : Nat) (packet : Packet) (state : State config) : Outcome config :=
  let width := packet.field 8
  let height := packet.field 10
  let scanned :=
    if config.MCUF_SERIAL_WORKAROUND_FOR_BAD_MCUF_UDP_PACKETS then scan packet height width steps 0 0
    else .found 255
  match scanned with
  | .undefined => .undefined
  | .running => .running
  | .found maxvalue =>
      showFrame config.MCUF_MAX_PCKT_SIZE height width
        (if maxvalue = 1 then blackPixel packet width else greyPixel packet width) state

/-- A frame of the format BLP. -/
def newBlp (packet : Packet) (state : State config) : Outcome config :=
  let width := packet.field 8
  let height := packet.field 10
  showFrame config.MCUF_MAX_PCKT_SIZE height width (blackPixel packet width) state

/-- `mcuf_newdata`. -/
def mcufNewdata (steps : Nat) (packet : Packet) (state : State config) : Outcome config :=
  if state.sent < state.len then .dropped
  else if packet.startsWith mcufMagic then newMcuf packet state
  else if packet.startsWith eblpMagic then newEblp steps packet state
  else if packet.startsWith blpMagic then newBlp packet state
  else .dropped

end Frames

end Ethersex.Mcuf
