import Mathlib

/-!
# Network packets over USB

The host sends a packet as the data of a control transfer, whose setup announces its length, and it gets
the packets of the device as the data of another one.  Both use the packet buffer of the network stack.
-/

namespace Ethersex.UsbNet

def USB_REQUEST_ECMD : UInt8 := 0
def USB_REQUEST_NET_SEND : UInt8 := 10
def USB_REQUEST_NET_RECV : UInt8 := 11
def USB_NO_MSG : UInt8 := 0xFF

/-- The memory, by the distance from the start of the packet buffer. -/
abbrev Memory := UInt16 → UInt8

/-- `memcpy`. -/
def Memory.copy (dest : UInt16) (data : List UInt8) (memory : Memory) : Memory := fun place =>
  data.getD (place - dest).toNat (memory place)

/-- The setup of a control transfer, which may be one that the driver answers itself. -/
structure Request where
  standard : Bool
  toHost : Bool
  bRequest : UInt8
  wValue : UInt16
  wLength : UInt16

/-- What the network stack leaves behind a packet: an answer, which may be one to the host, or nothing if
its length is 0. -/
structure Answer where
  uip_buf : Memory
  uip_len : UInt16
  toHost : Bool

/-- The variables of the USB driver, of its requests and of the packet buffer, and whether anything was
stored outside the packet buffer. -/
structure Device where
  setup_packet : UInt8
  userRw : Bool
  usbMsgLen : UInt8
  usb_rq_index : UInt16
  usb_rq_len : UInt16
  usb_packet_ready : Bool
  locked : Bool
  uip_buf : Memory
  uip_len : UInt16
  outside : Bool

section

/- `USB_BRIDGE_OFFSET`, which is `UIP_LLH_LEN`, and `UIP_CONF_BUFFER_SIZE`. -/
variable (offset size : UInt16)

namespace Device

/-! ## The requests -/

/-- `uip_buf_unlock`, where USB is the only one to send. -/
def uipBufUnlock (s : Device) : Device :=
  if s.usb_packet_ready then s else { s with locked := false }

/-- A request to send takes the buffer. -/
def takes (rq : Request) (s : Device) : Bool :=
  !rq.standard && rq.bRequest = USB_REQUEST_NET_SEND && !s.locked

/-- `usb_net_setup`, with the length of its answer. -/
def usbNetSetup (rq : Request) (s : Device) : Device × UInt8 :=
  if rq.bRequest = USB_REQUEST_NET_SEND then
    if s.locked then (s, 0)
    else
      ({ s with
        locked := true
        usb_rq_index := 0
        usb_rq_len := rq.wValue }, USB_NO_MSG)
  else if s.usb_packet_ready then (s, s.usb_rq_len.toUInt8)
  else (s, 0)

/-- `usb_net_read_finished`. -/
def usbNetReadFinished (s : Device) : Device := { s.uipBufUnlock with usb_packet_ready := false }

/-- `usb_net_write`. -/
def usbNetWrite (data : List UInt8) (s : Device) : Device × UInt8 :=
  let len := UInt16.ofNat data.length
  let dest := offset + s.usb_rq_index
  let s := if s.usb_rq_index + offset + len < size then
      { s with
        uip_buf := s.uip_buf.copy dest data
        outside := s.outside || (List.range data.length).any fun k => size ≤ dest + UInt16.ofNat k }
    else s
  let s := { s with usb_rq_index := s.usb_rq_index + len }
  (s, if s.usb_rq_index ≥ s.usb_rq_len then 1 else 0)

/-- `usb_net_txstart`. -/
def usbNetTxstart (s : Device) : Device :=
  { s with
    usb_packet_ready := true
    usb_rq_index := 0
    usb_rq_len := s.uip_len }

/-- A packet has arrived. -/
def arrived (s : Device) : Bool := s.usb_rq_len ≠ 0 && s.usb_rq_index ≥ s.usb_rq_len

/-- `usb_net_periodic`, and the length and the buffer that `router_input` gets. -/
def usbNetPeriodic (answer : Answer) (s : Device) : Device × Option (UInt16 × Memory) :=
  if s.arrived then
    let routed := (s.usb_rq_len + offset, s.uip_buf)
    let s := { s with
      usb_rq_len := 0
      uip_len := answer.uip_len
      uip_buf := answer.uip_buf }
    (if s.uip_len = 0 then s.uipBufUnlock else if answer.toHost then s.usbNetTxstart else s, some routed)
  else (s, none)

/-! ## The driver -/

/-- `usbFunctionSetup`, where other requests have some reply. -/
def usbFunctionSetup (rq : Request) (reply : UInt8) (s : Device) : Device × UInt8 :=
  let s := { s with setup_packet := rq.bRequest }
  if rq.bRequest = USB_REQUEST_NET_SEND ∨ rq.bRequest = USB_REQUEST_NET_RECV then s.usbNetSetup rq
  else (s, reply)

/-- Data of the host is written by `usb_net_write`. -/
def writes (s : Device) : Bool := s.userRw && s.setup_packet = USB_REQUEST_NET_SEND

/-- `usbFunctionWrite`. -/
def usbFunctionWrite (data : List UInt8) (reply : UInt8) (s : Device) : Device × UInt8 :=
  if s.setup_packet = USB_REQUEST_ECMD then (s, reply)
  else if s.setup_packet = USB_REQUEST_NET_SEND then s.usbNetWrite offset size data
  else (s, 1)

/-- `usbFunctionRead`, with the length of what it reads. -/
def usbFunctionRead (reply : UInt8) (s : Device) : UInt8 :=
  if s.setup_packet = USB_REQUEST_ECMD then reply else 0

/-- `usbFunctionReadFinished`. -/
def usbFunctionReadFinished (s : Device) : Device :=
  if s.setup_packet = USB_REQUEST_NET_RECV then s.usbNetReadFinished else s

/-- What `usbProcessRx` does with the length of a reply. -/
def replied (rq : Request) (replyLen : UInt8) (s : Device) : Device :=
  if replyLen = USB_NO_MSG then
    { s with
      userRw := true
      usbMsgLen := if rq.toHost then rq.wLength.toUInt8 else replyLen }
  else { s with usbMsgLen := if rq.wLength < 256 then min replyLen rq.wLength.toUInt8 else replyLen }

/-- `usbProcessRx` for the setup of a transfer. -/
def usbProcessSetup (rq : Request) (reply : UInt8) (s : Device) : Device :=
  let s := { s with userRw := false }
  if rq.standard then s.replied rq reply
  else (s.usbFunctionSetup rq reply).1.replied rq (s.usbFunctionSetup rq reply).2

/-- `usbProcessRx` for data of the host. -/
def usbProcessOut (data : List UInt8) (reply : UInt8) (s : Device) : Device :=
  if s.userRw then
    let written := s.usbFunctionWrite offset size data reply
    if written.2 ≠ 0xFF ∧ written.2 ≠ 0 then { written.1 with usbMsgLen := 0 } else written.1
  else s

/-- `usbBuildTxBlock`. -/
def usbBuildTxBlock (reply : UInt8) (s : Device) : Device :=
  if s.usbMsgLen = USB_NO_MSG then s
  else
    let wantLen := min s.usbMsgLen 8
    let s := { s with usbMsgLen := s.usbMsgLen - wantLen }
    let len := if wantLen > 0 ∧ s.userRw then s.usbFunctionRead reply else wantLen
    let s := if s.usbMsgLen = 0 then s.usbFunctionReadFinished else s
    if len = 8 then s else { s with usbMsgLen := USB_NO_MSG }

end Device

end

end Ethersex.UsbNet
