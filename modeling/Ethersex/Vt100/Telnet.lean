import Mathlib
import Ethersex.Library.Ring
import Ethersex.Uip.Connection
import Ethersex.Vt100.Stream

/-!
# The stream over TCP

The bytes for the terminal go into a ring, from which they are sent to any number of telnet
clients.  Every client begins with a full screen, and then is to get the bytes from there on.  The
server notes that all bytes up to the head of the ring were sent whenever it is asked for data,
also when it is asked for the ones that are in flight already.
-/

namespace Ethersex.Vt100

open Library Uip

/-! ## The ring and its readers -/

/-- `COLS`, `LINES`, and `sizeof (vt100_buf)`. -/
structure Screen where
  cols : Nat
  lines : Nat
  some : 0 < cols * lines

def Screen.size (screen : Screen) : Nat := screen.cols * screen.lines

/-- What all clients share: `vt100_buf`, `vt100_head` as an index, and `tty_image`. -/
structure Shared where
  buf : Bytes
  head : Nat
  image : Bytes

/-- `vt100_putbuf`. -/
def vt100Putbuf (screen : Screen) (ch : UInt8) (shared : Shared) : Shared :=
  { shared with
    buf := Function.update shared.buf shared.head ch
    head := if shared.head + 1 = screen.size then 0 else shared.head + 1 }

/-- The state of a client, with indices in place of pointers. -/
structure State where
  sendAll : Bool
  sent : Nat
  acked : Nat
  deriving DecidableEq, Repr

/-- A line of the screen, with its end. -/
def screenLine (screen : Screen) (image : Bytes) (y : Nat) : List UInt8 :=
  (List.range screen.cols).map (fun x => image (screen.cols * y + x)) ++ [13, 10]

/-- What `tty_vt100_send_all` sends. -/
def fullScreen (screen : Screen) (image : Bytes) : List UInt8 :=
  clrStr ++ (List.range screen.lines).flatMap (screenLine screen image)

/-- `memcpy` from the ring; lengths are in bytes. -/
def copyRing (shared : Shared) (start len : Nat) : List UInt8 :=
  (List.range (len % 256)).map fun k => shared.buf (start + k)

/-- The update for a client. -/
def update (screen : Screen) (shared : Shared) (acked : Nat) : List UInt8 :=
  if shared.head > acked then copyRing shared acked (shared.head - acked)
  else if shared.head < acked then copyRing shared acked (screen.size - acked) ++ copyRing shared 0 shared.head
  else []

/-- What `tty_vt100_main` notes of a call: that a connection was opened, that a segment was
acknowledged, and that there is a form feed in the data. -/
def State.note (connected isAcked : Bool) (appdata : List UInt8) (state : State) : State :=
  let state := if connected then { state with sendAll := true } else state
  let state := if isAcked then { state with sendAll := false, acked := state.sent } else state
  if 12 ∈ appdata.take (appdata.length % 256) then { state with sendAll := true } else state

/-- What `tty_vt100_main` sends. -/
def State.data (screen : Screen) (shared : Shared) (state : State) : List UInt8 :=
  if state.sendAll then fullScreen screen shared.image else update screen shared state.acked

/-- `tty_vt100_main`. -/
def ttyVt100Main (screen : Screen) (shared : Shared) (connected isAcked : Bool) (appdata : List UInt8)
    (state : State) : State × Reply :=
  let state := state.note connected isAcked appdata
  ({ state with sent := shared.head }, .send (state.data screen shared))

/-! ## Connections -/

/-- A segment: a full screen with the number of bytes that had been emitted when it was taken, or
bytes from the ring. -/
inductive Segment where
  | screen (taken : Nat) (bytes : List UInt8)
  | update (bytes : List UInt8)
  deriving DecidableEq, Repr

def Segment.bytes : Segment → List UInt8
  | .screen _ bytes => bytes
  | .update bytes => bytes

/-- A client, the copies that were sent of the segment in flight, the number of bytes that had been
emitted when the last full screen that the client has acknowledged was taken, and the bytes it has
acknowledged since. -/
structure Client where
  state : State
  established : Bool
  flight : List Segment
  since : Option Nat
  received : List UInt8

/-- `uip_connr->len`: all copies are of one length. -/
def Client.len (client : Client) : Nat := (client.flight.head?.map fun segment => segment.bytes.length).getD 0

/-- What the client makes of the copy that has reached it. -/
def Client.deliver (client : Client) : Segment → Client
  | .screen taken _ => { client with flight := [], since := some taken, received := [] }
  | .update bytes => { client with flight := [], received := client.received ++ bytes }

/-- A segment goes out. -/
def Client.send (emitted : Nat) (bytes : List UInt8) (client : Client) : Client :=
  let segment := if client.state.sendAll then .screen emitted bytes else .update bytes
  { client with flight := segment :: client.flight }

/-- What can happen to a connection: it is opened; a packet arrives, with an acknowledgement of the
segment in flight, one copy of which has reached the client, with data, or with both; the segment in
flight has to be sent again; or there is none and the application is polled; or the connection is
closed. -/
inductive Event where
  | connect (mss : Nat) (stale : Bytes)
  | packet (copy : Option Nat) (appdata : List UInt8) (mss : Nat) (stale : Bytes)
  | rexmit (stale : Bytes)
  | poll (mss : Nat) (stale : Bytes)
  | close

/-- A call of the application, which may send a segment. -/
def Client.call (screen : Screen) (shared : Shared) (emitted : Nat) (connected isAcked : Bool)
    (appdata : List UInt8) (mss : Nat) (stale : Bytes) (client : Client) : Client :=
  let (state, reply) := ttyVt100Main screen shared connected isAcked appdata client.state
  match (appsend isAcked mss stale client.len reply).2 with
  | .segment bytes => { client with state }.send emitted bytes
  | _ => { client with state }

def Client.step (screen : Screen) (shared : Shared) (emitted : Nat) (client : Client) : Event → Client
  | .connect mss stale =>
      if client.established then client
      else
        { client with established := true, flight := [], since := none, received := [] }.call
          screen shared emitted true false [] mss stale
  | .packet copy appdata mss stale =>
      if client.established = false then client
      else
        match copy.bind (client.flight[·]?) with
        | some segment => (client.deliver segment).call screen shared emitted false true appdata mss stale
        | none =>
            if appdata = [] then client
            else client.call screen shared emitted false false appdata mss stale
  | .rexmit stale =>
      if client.established = false ∨ client.flight = [] then client
      else
        let (state, reply) := ttyVt100Main screen shared false false [] client.state
        match apprexmit stale client.len reply with
        | .segment bytes => { client with state }.send emitted bytes
        | _ => { client with state }
  | .poll mss stale =>
      if client.established = false ∨ client.flight ≠ [] then client
      else client.call screen shared emitted false false [] mss stale
  | .close => { client with established := false }

/-- The ring, everything that was ever put into it, and the clients. -/
structure World (ι : Type) where
  shared : Shared
  emitted : List UInt8
  clients : ι → Client

/-- A byte is emitted, the image changes, or something happens to a connection. -/
inductive Action (ι : Type) where
  | emit (ch : UInt8)
  | draw (image : Bytes)
  | client (index : ι) (event : Event)

section Runs

variable {ι : Type} [DecidableEq ι] (screen : Screen)

/-- Nothing was emitted, and there are no connections. -/
def World.start (image : Bytes) (states : ι → State) : World ι :=
  ⟨⟨fun _ => 0, 0, image⟩, [], fun index => ⟨states index, false, [], none, []⟩⟩

def World.step (world : World ι) : Action ι → World ι
  | .emit ch =>
      { world with shared := vt100Putbuf screen ch world.shared, emitted := world.emitted ++ [ch] }
  | .draw image => { world with shared := { world.shared with image } }
  | .client index event =>
      { world with
        clients := Function.update world.clients index
          ((world.clients index).step screen world.shared world.emitted.length event) }

def World.run (actions : List (Action ι)) (world : World ι) : World ι := actions.foldl (step screen) world

end Runs

/-! ## What a client should get -/

/-- A full screen that is sent is whole; behind it the client gets the bytes that were emitted since
it was taken, each once and in order, and all of them when it is said to have acknowledged all; and
what it has not acknowledged is still in the ring. -/
structure Intact (screen : Screen) (shared : Shared) (emitted : List UInt8) (client : Client) : Prop where
  whole : ∀ taken bytes, .screen taken bytes ∈ client.flight →
    (∃ image, bytes = fullScreen screen image) ∧ Retains screen.size shared.buf emitted taken
  ordered : ∀ since, client.since = some since → client.received <+: emitted.drop since ∧
    ∀ bytes, .update bytes ∈ client.flight → client.received ++ bytes <+: emitted.drop since
  kept : client.state.sendAll = false → ∀ since, client.since = some since →
    Retains screen.size shared.buf emitted (since + client.received.length)
  complete : client.flight = [] → client.state.acked = shared.head →
    ∃ since, client.since = some since ∧ client.received = emitted.drop since

/-! ## Steps that go well -/

/-- What is sent fits a segment, and the lengths of its parts fit a byte. -/
structure State.Fits (screen : Screen) (shared : Shared) (mss : Nat) (state : State) : Prop where
  segment : (state.data screen shared).length ≤ mss
  ahead : state.sendAll = false → shared.head - state.acked < 256
  wrapped : state.sendAll = false → shared.head < state.acked →
    screen.size - state.acked < 256 ∧ shared.head < 256

/-- When the application is called while a segment is in flight, nothing was emitted since that was
sent, and no full screen is asked for while it is an update; in all other calls, what is sent
fits. -/
def Client.Meets (screen : Screen) (shared : Shared) (client : Client) : Event → Prop
  | .connect mss _ =>
      client.established = false → (client.state.note true false []).Fits screen shared mss
  | .packet copy appdata mss _ =>
      client.established = true →
        match copy.bind (client.flight[·]?) with
        | some _ => (client.state.note false true appdata).Fits screen shared mss
        | none =>
            if client.flight = [] then (client.state.note false false appdata).Fits screen shared mss
            else appdata ≠ [] → client.state.sent = shared.head ∧
              (client.state.note false false appdata).sendAll = client.state.sendAll
  | .rexmit _ => client.established = true → client.flight ≠ [] → client.state.sent = shared.head
  | .poll mss _ => client.established = true → client.flight = [] → client.state.Fits screen shared mss
  | .close => True

section Condition

variable {ι : Type} [DecidableEq ι] (screen : Screen)

/-- A byte is emitted when the ring has a place left in front of what each client has
acknowledged, or of the full screen it was sent. -/
def World.Meets (world : World ι) : Action ι → Prop
  | .emit ch => ∀ index, (world.clients index).established = true →
      (vt100Putbuf screen ch world.shared).head ≠
        if (world.clients index).state.sendAll then (world.clients index).state.sent
        else (world.clients index).state.acked
  | .draw _ => True
  | .client index event => (world.clients index).Meets screen world.shared event

/-- All actions of a run meet the condition. -/
def World.AllMeet : List (Action ι) → World ι → Prop
  | [], _ => True
  | action :: rest, world => world.Meets screen action ∧ AllMeet rest (world.step screen action)

end Condition

/-! ## Updates -/

section Updates

variable {screen : Screen} {shared : Shared} {emitted : List UInt8}

/-- Where a client is: what it has received since a full screen, and its place in the ring. -/
structure Reading (screen : Screen) (shared : Shared) (emitted : List UInt8) (since : Nat)
    (received : List UInt8) (place : Nat) : Prop where
  ordered : received <+: emitted.drop since
  inside : since + received.length ≤ emitted.length
  near : emitted.length < since + received.length + screen.size
  place : place = (since + received.length) % screen.size
  kept : Retains screen.size shared.buf emitted (since + received.length)

/-- The place of the head. -/
def Headed (screen : Screen) (shared : Shared) (emitted : List UInt8) : Prop :=
  shared.head = emitted.length % screen.size

theorem copyRing_eq {start count : Nat} (retains : Retains screen.size shared.buf emitted start)
    (inside : start + count ≤ emitted.length) (below : start % screen.size + count ≤ screen.size)
    (small : count < 256) : copyRing shared (start % screen.size) count = (emitted.drop start).take count := by
  rw [← retains.read inside, copyRing, Nat.mod_eq_of_lt small]
  refine List.map_congr_left fun k member => ?_
  rw [List.mem_range] at member
  rw [← Nat.mod_add_mod, Nat.mod_eq_of_lt (show start % screen.size + k < screen.size by omega)]

/-- The update is what the client has not got yet. -/
theorem update_eq (headed : Headed screen shared emitted) {start : Nat} (inside : start ≤ emitted.length)
    (near : emitted.length < start + screen.size) (retains : Retains screen.size shared.buf emitted start)
    (ahead : shared.head - start % screen.size < 256)
    (wrapped : shared.head < start % screen.size →
      screen.size - start % screen.size < 256 ∧ shared.head < 256) :
    update screen shared (start % screen.size) = emitted.drop start := by
  have positive : 0 < screen.size := screen.some
  have place := Nat.mod_lt start positive
  have length : emitted.length = start + (emitted.length - start) := by omega
  have head : shared.head = if start % screen.size + (emitted.length - start) < screen.size then
      start % screen.size + (emitted.length - start)
      else start % screen.size + (emitted.length - start) - screen.size := by
    rw [headed, length, add_mod_of_lt (by omega), Nat.add_sub_cancel_left]
  rw [update]
  split at head
  next below =>
    by_cases none : emitted.length - start = 0
    · rw [if_neg (by omega), if_neg (by omega), List.drop_eq_nil_of_le (by omega)]
    · rw [if_pos (by omega), show shared.head - start % screen.size = emitted.length - start by omega,
        copyRing_eq retains (by omega) (by omega) (by omega), List.take_of_length_le (by simp)]
  next behind =>
    obtain ⟨first, second⟩ := wrapped (by omega)
    have border : (start + (screen.size - start % screen.size)) % screen.size = 0 := by
      rw [← Nat.mod_add_mod, Nat.add_sub_cancel' (Nat.le_of_lt place), Nat.mod_self]
    have tail := @copyRing_eq screen shared emitted (start + (screen.size - start % screen.size)) shared.head
      (retains.mono (Nat.le_add_right _ _)) (by omega) (by omega) second
    rw [border] at tail
    rw [if_neg (by omega), if_pos (by omega), tail, copyRing_eq retains (by omega) (by omega) first,
      ← List.drop_drop, ← List.take_add, List.take_of_length_le (by rw [List.length_drop]; omega)]

/-- What is there stays behind what is added. -/
theorem drop_prefix_drop (emitted more : List UInt8) (since : Nat) :
    emitted.drop since <+: (emitted ++ more).drop since := by
  rw [List.drop_append]
  exact List.prefix_append _ _

/-- A client that begins where the head is. -/
theorem reading_head (headed : Headed screen shared emitted) :
    Reading screen shared emitted emitted.length [] shared.head where
  ordered := List.nil_prefix
  inside := le_rfl
  near := Nat.lt_add_of_pos_right screen.some
  place := headed
  kept := retains_length _ _ _

/-- Bytes of an update that the client has received. -/
theorem Reading.deliver {since place : Nat} {received bytes : List UInt8}
    (reading : Reading screen shared emitted since received place)
    (coming : received ++ bytes <+: emitted.drop since) {sent : Nat}
    (behind : sent = (since + received.length + bytes.length) % screen.size) :
    Reading screen shared emitted since (received ++ bytes) sent := by
  have length := coming.length_le
  have inside := reading.inside
  have near := reading.near
  rw [List.length_append, List.length_drop] at length
  refine ⟨coming, ?_, ?_, ?_, reading.kept.mono ?_⟩
  · rw [List.length_append]
    omega
  · rw [List.length_append]
    omega
  · rw [behind, List.length_append, Nat.add_assoc]
  · rw [List.length_append]
    omega

/-- A byte is emitted. -/
theorem Headed.putbuf (headed : Headed screen shared emitted) (ch : UInt8) :
    Headed screen (vt100Putbuf screen ch shared) (emitted ++ [ch]) := by
  have positive : 0 < screen.size := screen.some
  have place := Nat.mod_lt emitted.length positive
  rw [Headed] at headed ⊢
  rw [vt100Putbuf, List.length_append, List.length_singleton, ← Nat.mod_add_mod, ← headed]
  rw [← headed] at place
  dsimp only
  split
  next last => rw [last, Nat.mod_self]
  next inside => rw [Nat.mod_eq_of_lt (by omega)]

theorem Reading.putbuf {since place : Nat} {received : List UInt8}
    (reading : Reading screen shared emitted since received place) (headed : Headed screen shared emitted)
    {ch : UInt8} (room : (vt100Putbuf screen ch shared).head ≠ place) :
    Reading screen (vt100Putbuf screen ch shared) (emitted ++ [ch]) since received place := by
  have near := reading.near
  have inside := reading.inside
  have next := headed.putbuf ch
  have space : emitted.length + 1 < since + received.length + screen.size := by
    refine Nat.lt_of_le_of_ne near fun full => room ?_
    rw [next, reading.place, List.length_append, List.length_singleton, full, Nat.add_mod_right]
  refine ⟨reading.ordered.trans (drop_prefix_drop _ _ _), ?_, ?_, reading.place, ?_⟩
  · rw [List.length_append]
    omega
  · rw [List.length_append, List.length_singleton]
    exact space
  · have kept := reading.kept.push (by omega) ch
    rwa [← headed] at kept

end Updates

/-! ## What holds in every run -/

section Phases

variable {screen : Screen} {shared : Shared} {emitted : List UInt8} {client : Client}

/-- A client is sent a full screen, or an update, or has acknowledged what it was sent. -/
inductive Phase (screen : Screen) (shared : Shared) (emitted : List UInt8) (client : Client) : Prop
  | screen (taken : Nat) (some : client.flight ≠ [])
      (copies : ∀ segment ∈ client.flight, ∃ image, segment = .screen taken (fullScreen screen image))
      (sendAll : client.state.sendAll = true)
      (old : ∀ since, client.since = .some since → client.received <+: emitted.drop since)
      (reading : Reading screen shared emitted taken [] client.state.sent)
  | update (since : Nat) (bytes : List UInt8) (some : client.flight ≠ [])
      (copies : ∀ segment ∈ client.flight, segment = .update bytes) (nonempty : bytes ≠ [])
      (sendAll : client.state.sendAll = false) (begun : client.since = .some since)
      (reading : Reading screen shared emitted since client.received client.state.acked)
      (coming : client.received ++ bytes <+: emitted.drop since)
      (short : client.state.sent - client.state.acked < 256 ∧
        (client.state.sent < client.state.acked →
          screen.size - client.state.acked < 256 ∧ client.state.sent < 256))
      (sent : client.state.sent = (since + client.received.length + bytes.length) % screen.size)
  | idle (since : Nat) (none : client.flight = []) (sendAll : client.state.sendAll = false)
      (begun : client.since = .some since)
      (reading : Reading screen shared emitted since client.received client.state.acked)

theorem Phase.intact (phase : Phase screen shared emitted client) (headed : Headed screen shared emitted) :
    Intact screen shared emitted client := by
  cases phase with
  | screen taken some copies sendAll old reading =>
      refine ⟨fun other bytes member => ?_, fun since begun => ⟨old since begun, fun bytes member => ?_⟩,
        fun update => absurd (sendAll.symm.trans update) (by decide), fun none => absurd none some⟩
      · obtain ⟨image, same⟩ := copies _ member
        cases same
        exact ⟨⟨image, rfl⟩, reading.kept⟩
      · obtain ⟨image, same⟩ := copies _ member
        exact nomatch same
  | update since bytes some copies nonempty sendAll begun reading coming short sent =>
      refine ⟨fun taken other member => (nomatch copies _ member), fun other begun' => ?_, fun _ other begun' => ?_,
        fun none => absurd none some⟩
      · cases begun.symm.trans begun'
        refine ⟨reading.ordered, fun other member => ?_⟩
        cases copies _ member
        exact coming
      · cases begun.symm.trans begun'
        exact reading.kept
  | idle since none sendAll begun reading =>
      refine ⟨fun taken bytes member => ?_, fun other begun' => ?_, fun _ other begun' => ?_, fun _ head => ?_⟩
      · rw [none] at member
        exact nomatch member
      · cases begun.symm.trans begun'
        refine ⟨reading.ordered, fun bytes member => ?_⟩
        rw [none] at member
        exact nomatch member
      · cases begun.symm.trans begun'
        exact reading.kept
      · refine ⟨since, begun, reading.ordered.eq_of_length ?_⟩
        have inside := reading.inside
        have near := reading.near
        have place := reading.place
        rw [head, headed, show emitted.length = since + client.received.length +
          (emitted.length - (since + client.received.length)) by omega, add_mod_of_lt (by omega)] at place
        rw [List.length_drop]
        have := Nat.mod_lt (since + client.received.length) (show 0 < screen.size from screen.some)
        split at place <;> omega

/-- A byte is emitted. -/
theorem Phase.putbuf (phase : Phase screen shared emitted client) (headed : Headed screen shared emitted) {ch : UInt8}
    (room : (vt100Putbuf screen ch shared).head ≠
      if client.state.sendAll then client.state.sent else client.state.acked) :
    Phase screen (vt100Putbuf screen ch shared) (emitted ++ [ch]) client := by
  cases phase with
  | screen taken some copies sendAll old reading =>
      rw [sendAll, if_pos rfl] at room
      exact .screen taken some copies sendAll
        (fun since begun => (old since begun).trans (drop_prefix_drop _ _ _)) (reading.putbuf headed room)
  | update since bytes some copies nonempty sendAll begun reading coming short sent =>
      rw [sendAll, if_neg Bool.false_ne_true] at room
      exact .update since bytes some copies nonempty sendAll begun (reading.putbuf headed room)
        (coming.trans (drop_prefix_drop _ _ _)) short sent
  | idle since none sendAll begun reading =>
      rw [sendAll, if_neg Bool.false_ne_true] at room
      exact .idle since none sendAll begun (reading.putbuf headed room)

/-- The image changes. -/
theorem Phase.draw (phase : Phase screen shared emitted client) (image : Bytes) :
    Phase screen { shared with image } emitted client := by
  have same : ∀ {since place received}, Reading screen shared emitted since received place →
      Reading screen { shared with image } emitted since received place := fun reading => { reading with }
  cases phase with
  | screen taken some copies sendAll old reading => exact .screen taken some copies sendAll old (same reading)
  | update since bytes some copies nonempty sendAll begun reading coming short sent =>
      exact .update since bytes some copies nonempty sendAll begun (same reading) coming short sent
  | idle since none sendAll begun reading => exact .idle since none sendAll begun (same reading)

/-- A segment goes out when there is none in flight. -/
theorem call_fresh (headed : Headed screen shared emitted) {connected isAcked : Bool} {appdata : List UInt8}
    {mss : Nat} (stale : Bytes) (none : client.flight = [])
    (fits : (client.state.note connected isAcked appdata).Fits screen shared mss)
    (old : ∀ since, client.since = some since → client.received <+: emitted.drop since)
    (ready : (client.state.note connected isAcked appdata).sendAll = false → ∃ since, client.since = some since ∧
      Reading screen shared emitted since client.received (client.state.note connected isAcked appdata).acked) :
    Phase screen shared emitted
      (client.call screen shared emitted.length connected isAcked appdata mss stale) := by
  rw [Client.call, ttyVt100Main]
  generalize client.state.note connected isAcked appdata = state at *
  have idle : client.len = 0 := by
    rw [Client.len, none]
    rfl
  dsimp only
  cases sendAll : state.sendAll with
  | true =>
      have data : state.data screen shared = fullScreen screen shared.image := if_pos sendAll
      have some : fullScreen screen shared.image ≠ [] := List.append_ne_nil_of_left_ne_nil (by decide) _
      rw [data, appsend_fits stale some (data ▸ fits.segment) (.inr idle)]
      dsimp only
      rw [Client.send, none]
      dsimp only
      rw [if_pos rfl]
      refine .screen emitted.length (List.cons_ne_nil _ _) (fun segment member => ?_) rfl old
        (reading_head headed)
      exact ⟨shared.image, List.mem_singleton.mp member⟩
  | false =>
      obtain ⟨since, begun, reading⟩ := ready sendAll
      have data : state.data screen shared = emitted.drop (since + client.received.length) := by
        rw [State.data, sendAll, if_neg Bool.false_ne_true, reading.place]
        exact update_eq headed reading.inside reading.near reading.kept
          (reading.place ▸ fits.ahead sendAll) (reading.place ▸ fits.wrapped sendAll)
      by_cases nothing : state.data screen shared = []
      · rw [nothing, show appsend isAcked mss stale client.len (.send []) = (client.len, .nothing) from rfl]
        exact .idle since none rfl begun reading
      · rw [appsend_fits stale nothing fits.segment (.inr idle)]
        dsimp only
        rw [Client.send, none]
        dsimp only
        rw [if_neg Bool.false_ne_true]
        have inside := reading.inside
        refine .update since (state.data screen shared) (List.cons_ne_nil _ _)
          (fun segment member => List.mem_singleton.mp member) nothing rfl begun reading ?_ ?_ ?_
        · dsimp only
          rw [data, ← List.drop_drop, ← List.prefix_append_drop reading.ordered]
        · exact ⟨fits.ahead sendAll, fits.wrapped sendAll⟩
        · rw [data, List.length_drop, Nat.add_sub_cancel' inside]
          exact headed

/-- Places that are the same are not more than a round apart. -/
theorem eq_of_place {first second size : Nat} (le : first ≤ second) (near : second < first + size)
    (same : first % size = second % size) : first = second := by
  have multiple := (Nat.modEq_iff_dvd' le).mp same
  rcases Nat.eq_zero_or_pos (second - first) with none | some
  · omega
  · have := Nat.le_of_dvd some multiple
    omega

theorem length_fullScreen (screen : Screen) (image image' : Bytes) :
    (fullScreen screen image).length = (fullScreen screen image').length := by
  simp only [fullScreen, screenLine, List.length_append, List.length_flatMap, List.length_map]

/-- When nothing was emitted since the segment in flight was sent, the same is sent again. -/
theorem Phase.again (phase : Phase screen shared emitted client) (headed : Headed screen shared emitted)
    (flying : client.flight ≠ []) (same : client.state.sent = shared.head) :
    client.state.data screen shared ≠ [] ∧ (client.state.data screen shared).length = client.len ∧
      Phase screen shared emitted ({ client with state := { client.state with sent := shared.head } }.send
        emitted.length (client.state.data screen shared)) := by
  obtain ⟨first, others, flight⟩ := List.exists_cons_of_ne_nil flying
  have head : client.len = first.bytes.length := by
    rw [Client.len, flight]
    rfl
  have member : first ∈ client.flight := flight ▸ List.mem_cons_self
  have keeps : { client.state with sent := shared.head } = client.state := by
    rw [← same]
  cases phase with
  | screen taken some copies sendAll old reading =>
      have data : client.state.data screen shared = fullScreen screen shared.image := if_pos sendAll
      obtain ⟨image, copy⟩ := copies first member
      have now : taken = emitted.length := by
        refine eq_of_place reading.inside reading.near ?_
        rw [← headed, ← same]
        exact reading.place.symm
      rw [data, head, copy]
      refine ⟨List.append_ne_nil_of_left_ne_nil (by decide) _, length_fullScreen screen _ _, ?_⟩
      rw [keeps, Client.send, sendAll, if_pos rfl]
      refine .screen taken (List.cons_ne_nil _ _) ?_ sendAll old reading
      refine List.forall_mem_cons.mpr ⟨⟨shared.image, ?_⟩, copies⟩
      rw [now]
  | update since bytes some copies nonempty sendAll begun reading coming short sent =>
      have length := coming.length_le
      have inside := reading.inside
      have near := reading.near
      rw [List.length_append, List.length_drop] at length
      have now : since + client.received.length + bytes.length = emitted.length := by
        refine @eq_of_place _ _ screen.size (by omega) (by omega) ?_
        rw [← headed, ← same]
        exact sent.symm
      have data : client.state.data screen shared = bytes := by
        rw [State.data, sendAll, if_neg Bool.false_ne_true, reading.place]
        rw [same, reading.place] at short
        rw [update_eq headed reading.inside reading.near reading.kept short.1 short.2]
        have whole : client.received ++ bytes = emitted.drop since := coming.eq_of_length (by
          rw [List.length_append, List.length_drop]
          omega)
        rw [← List.drop_drop, ← whole, List.drop_left]
      rw [data, head, copies first member]
      refine ⟨nonempty, rfl, ?_⟩
      rw [keeps, Client.send, sendAll, if_neg Bool.false_ne_true]
      exact .update since bytes (List.cons_ne_nil _ _) (List.forall_mem_cons.mpr ⟨rfl, copies⟩) nonempty sendAll
        begun reading coming short sent
  | idle since none sendAll begun reading => exact absurd none flying

/-- The client has acknowledged the segment in flight. -/
theorem Phase.deliver (phase : Phase screen shared emitted client) {segment : Segment}
    (member : segment ∈ client.flight) :
    (client.deliver segment).flight = [] ∧ ∃ since, (client.deliver segment).since = some since ∧
      (client.deliver segment).state = client.state ∧
      Reading screen shared emitted since (client.deliver segment).received client.state.sent := by
  cases phase with
  | screen taken some copies sendAll old reading =>
      obtain ⟨image, rfl⟩ := copies segment member
      exact ⟨rfl, taken, rfl, rfl, reading⟩
  | update since bytes some copies nonempty sendAll begun reading coming short sent =>
      obtain rfl := copies segment member
      exact ⟨rfl, since, begun, rfl, reading.deliver coming sent⟩
  | idle since none sendAll begun reading =>
      rw [none] at member
      exact nomatch member

theorem note_eq (appdata : List UInt8) (state : State)
    (keeps : (state.note false false appdata).sendAll = state.sendAll) :
    state.note false false appdata = state := by
  rw [State.note] at keeps ⊢
  simp only [Bool.false_eq_true, if_false] at keeps ⊢
  split at keeps
  next feed => rw [if_pos feed, show true = state.sendAll from keeps]
  next none => exact if_neg none

/-- A call while nothing is in flight. -/
theorem Phase.call (phase : Phase screen shared emitted client) (headed : Headed screen shared emitted)
    (none : client.flight = []) {appdata : List UInt8} {mss : Nat}
    (fits : (client.state.note false false appdata).Fits screen shared mss) (stale : Bytes) :
    Phase screen shared emitted (client.call screen shared emitted.length false false appdata mss stale) := by
  cases phase with
  | screen taken some => exact absurd none some
  | update since bytes some => exact absurd none some
  | idle since _ sendAll begun reading =>
      refine call_fresh headed stale none fits (fun other begun' => ?_) fun _ => ⟨since, begun, ?_⟩
      · cases begun.symm.trans begun'
        exact reading.ordered
      · rw [show (client.state.note false false appdata).acked = client.state.acked by
          rw [State.note]
          split <;> rfl]
        exact reading

theorem Phase.step (phase : client.established = true → Phase screen shared emitted client)
    (headed : Headed screen shared emitted) {event : Event} (meets : client.Meets screen shared event) :
    (client.step screen shared emitted.length event).established = true →
      Phase screen shared emitted (client.step screen shared emitted.length event) := by
  intro open_
  cases event with
  | close => exact nomatch open_
  | connect mss stale =>
      rw [Client.step] at open_ ⊢
      split
      next established => exact phase established
      next closed =>
        exact call_fresh headed stale rfl (meets (Bool.of_not_eq_true closed)) nofun nofun
  | packet copy appdata mss stale =>
      rw [Client.step] at open_ ⊢
      split at open_
      next closed => exact absurd (closed.symm.trans open_) Bool.false_ne_true
      next established =>
        rw [if_neg established]
        have established : client.established = true := Bool.of_not_eq_false established
        have phase := phase established
        have meets := meets established
        cases acknowledged : copy.bind (client.flight[·]?) with
        | some segment =>
            rw [acknowledged] at meets
            obtain ⟨index, -, there⟩ := Option.bind_eq_some_iff.mp acknowledged
            obtain ⟨none, since, begun, state, reading⟩ := phase.deliver (List.mem_of_getElem? there)
            refine call_fresh headed stale none (state ▸ meets) (fun other begun' => ?_) fun update => ?_
            · cases begun.symm.trans begun'
              exact reading.ordered
            · refine ⟨since, begun, ?_⟩
              rw [state, show (client.state.note false true appdata).acked = client.state.sent by
                rw [State.note]
                split <;> rfl]
              exact reading
        | none =>
            rw [acknowledged] at meets
            dsimp only at meets ⊢
            by_cases silent : appdata = []
            · rw [if_pos silent]
              exact phase
            · rw [if_neg silent]
              by_cases flying : client.flight = []
              · rw [if_pos flying] at meets
                exact phase.call headed flying meets stale
              · rw [if_neg flying] at meets
                obtain ⟨same, keeps⟩ := meets silent
                obtain ⟨nonempty, length, phase⟩ := phase.again headed flying same
                rw [Client.call, ttyVt100Main, note_eq appdata client.state keeps, ← length]
                dsimp only
                rw [appsend_same mss stale nonempty]
                exact phase
  | rexmit stale =>
      rw [Client.step] at open_ ⊢
      split at open_
      next quiet =>
        rw [if_pos quiet]
        exact phase open_
      next flying =>
        obtain ⟨established, flying'⟩ := not_or.mp flying
        have established : client.established = true := Bool.of_not_eq_false established
        obtain ⟨nonempty, length, phase⟩ := (phase established).again headed flying' (meets established flying')
        rw [if_neg flying, ttyVt100Main, note_eq [] client.state rfl, ← length]
        dsimp only
        rw [apprexmit_same stale nonempty]
        exact phase
  | poll mss stale =>
      rw [Client.step] at open_ ⊢
      split at open_
      next quiet =>
        rw [if_pos quiet]
        exact phase open_
      next idle =>
        obtain ⟨established, none⟩ := not_or.mp idle
        have established : client.established = true := Bool.of_not_eq_false established
        rw [not_not] at none
        rw [if_neg idle]
        exact (phase established).call headed none (meets established none) stale

end Phases

section Worlds

variable {ι : Type} [DecidableEq ι] {screen : Screen} {world : World ι}

/-- The head of the ring is where it should be, and so is every client. -/
structure Sound (screen : Screen) (world : World ι) : Prop where
  headed : Headed screen world.shared world.emitted
  clients : ∀ index, (world.clients index).established = true →
    Phase screen world.shared world.emitted (world.clients index)

omit [DecidableEq ι] in
theorem sound_start (image : Bytes) (states : ι → State) : Sound screen (World.start image states) where
  headed := (Nat.zero_mod _).symm
  clients := nofun

theorem Sound.step (sound : Sound screen world) {action : Action ι} (meets : world.Meets screen action) :
    Sound screen (world.step screen action) := by
  cases action with
  | emit ch =>
      exact ⟨sound.headed.putbuf ch, fun index established =>
        (sound.clients index established).putbuf sound.headed (meets index established)⟩
  | draw image =>
      exact ⟨sound.headed, fun index established => (sound.clients index established).draw image⟩
  | client index event =>
      refine ⟨sound.headed, fun other established => ?_⟩
      simp only [World.step] at established ⊢
      by_cases same : other = index
      · subst same
        rw [Function.update_self] at established ⊢
        exact Phase.step (sound.clients other) sound.headed meets established
      · rw [Function.update_of_ne same] at established ⊢
        exact sound.clients other established

theorem Sound.run (sound : Sound screen world) {actions : List (Action ι)} (meet : world.AllMeet screen actions) :
    Sound screen (world.run screen actions) := by
  induction actions generalizing world with
  | nil => exact sound
  | cons action rest ih => exact ih (sound.step meet.1) meet.2

end Worlds

/-- In every run whose actions meet the condition, every client that is connected gets the bytes that
were emitted since its full screen, each once and in order, and nothing that it has not acknowledged is
overwritten. -/
theorem telnet_stream_intact {ι : Type} [DecidableEq ι] (screen : Screen) (image : Bytes) (states : ι → State)
    (actions : List (Action ι)) (meet : (World.start image states).AllMeet screen actions) (index : ι)
    (established : (((World.start image states).run screen actions).clients index).established = true) :
    Intact screen ((World.start image states).run screen actions).shared
      ((World.start image states).run screen actions).emitted
      (((World.start image states).run screen actions).clients index) := by
  have sound := (sound_start image states).run meet
  exact (sound.clients index established).intact sound.headed

/-! ## Two runs -/

/-- Two lines of eight columns. -/
def eightByTwo : Screen := ⟨8, 2, by decide⟩

/-- A client acknowledges its full screen, and a byte that is emitted then and sent twice. -/
def oneByte : List (Action Unit) :=
  [.client () (.connect 100 fun _ => 0), .client () (.packet (some 0) [] 100 fun _ => 0), .emit 97,
    .client () (.poll 100 fun _ => 0), .client () (.rexmit fun _ => 0),
    .client () (.packet (some 1) [] 100 fun _ => 0)]

theorem telnet_stream_intact_one :
    Intact eightByTwo ((World.start (fun _ => 32) fun _ => ⟨false, 0, 0⟩).run eightByTwo oneByte).shared
      ((World.start (fun _ => 32) fun _ => ⟨false, 0, 0⟩).run eightByTwo oneByte).emitted
      (((World.start (fun _ => 32) fun _ => ⟨false, 0, 0⟩).run eightByTwo oneByte).clients ()) := by
  refine telnet_stream_intact eightByTwo (fun _ => 32) (fun _ => ⟨false, 0, 0⟩) oneByte
    ⟨fun _ => ⟨by decide, nofun, nofun⟩, fun _ => ⟨by decide, fun _ => by decide, fun _ => by decide⟩,
      (by decide : ∀ _ : Unit, _), fun _ _ => ⟨by decide, fun _ => by decide, fun _ => by decide⟩, fun _ _ => by decide,
      fun _ => ⟨by decide, fun _ => by decide, fun _ => by decide⟩, trivial⟩ () (by decide)

/-- A byte is emitted while the one before it is in flight, which has to be sent again: the second one
is noted as sent, and lost. -/
theorem telnet_byte_lost :
    let world := (World.start (fun _ => 32) fun _ : Unit => ⟨false, 0, 0⟩).run eightByTwo
      [.client () (.connect 100 fun _ => 0), .client () (.packet (some 0) [] 100 fun _ => 0), .emit 97,
        .client () (.poll 100 fun _ => 0), .emit 98, .client () (.rexmit fun _ => 0),
        .client () (.packet (some 0) [] 100 fun _ => 0)]
    (world.clients ()).established = true ∧
      ¬Intact eightByTwo world.shared world.emitted (world.clients ()) := by
  refine ⟨by decide, fun intact => ?_⟩
  obtain ⟨since, begun, all⟩ := intact.complete (by decide) (by decide)
  cases begun
  exact absurd all (by decide)

end Ethersex.Vt100
