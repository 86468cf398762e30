import Ethersex.Ecmd.Usart
import Ethersex.Library.Walks

/-!
# The port stays open

Every line is parsed as it was received, and after its reply the port takes the next one.  That
holds as long as no command fails, no text fills its buffer, and no byte comes while the main loop
is busy with the line.
-/

namespace Ethersex.Ecmd.Usart

open Ethersex.Library

variable {size : Nat}

/-! ## The property -/

/-- A text that the parser was called with is that of the line, up to a zero. -/
def Parsed : List UInt8 × Line → Prop
  | (_, .collecting _) => False
  | (cmd, .complete bytes) => cmd = bytes.takeWhile (· ≠ 0)
  | (_, .again) => True

/-- The first steps of a call of `ecmd_serial_usart_periodic`. -/
def periodicCalled (size : Nat) : List (Event size) := List.replicate 4 (.periodic none)

/-- When `ecmd_serial_usart_periodic` is called, it calls the parser with the text. -/
def Parses (size : Nat) (system : System) (text : List UInt8) : Prop :=
  ∃ after, (periodicCalled size).foldl step (some system) = some after ∧
    after.calls = system.calls ++ [(text, system.line)]

/-- When `ecmd_serial_usart_periodic` is called, it drops the line and is done. -/
def Drops (size : Nat) (system : System) : Prop :=
  ∃ after, (periodicCalled size).foldl step (some system) = some after ∧
    after.state.periodic = .idle ∧ after.line = .collecting [] ∧ after.calls = system.calls

/-- The bytes and the end of the line arrive. -/
def arrivals (size : Nat) (bytes : List UInt8) : List (Event size) :=
  (bytes ++ [10]).map (.receive false)

/-- What the port does with a line, when it is not busy. -/
def Handles (size : Nat) (system : System) : Line → Prop
  | .collecting bytes =>
      ∀ rest, (∀ data ∈ rest, endsLine data = false) → 2 ≤ (bytes ++ rest).length →
        (bytes ++ rest).length < min size 256 →
          ∃ heard, (arrivals size rest).foldl step (some system) = some heard ∧
            heard.line = .complete (bytes ++ rest) ∧ Parses size heard ((bytes ++ rest).takeWhile (· ≠ 0))
  | .complete bytes =>
      if bytes.length < 2 then Drops size system else Parses size system (bytes.takeWhile (· ≠ 0))
  | .again => ∃ text, Parses size system text

structure Responsive (size : Nat) (system : System) : Prop where
  parsed : ∀ call ∈ system.calls, Parsed call
  /-- The transmitter becomes idle. -/
  transmits : ∃ count after,
    (List.replicate count (.transmit : Event size)).foldl step (some system) = some after ∧
      after.state.TXCIE = false
  handles : system.state.periodic = .idle → system.state.TXCIE = false → Handles size system system.line

/-! ## The condition -/

/-- The length of an output that a result stands for. -/
def outputLength (ret : Int) : Int := if isEcmdAgain ret then ECMD_AGAIN ret else ret

/-- There is a zero in a buffer. -/
def Terminated (size : Nat) (buffer : Bytes) : Prop := (fieldText size buffer).length < size

/-- A length whose reply fits into the buffer and into the counters. -/
def Fits (size : Nat) (len : Int) : Prop := 0 ≤ len ∧ len ≤ size ∧ len ≤ 253

instance (len : Int) : Decidable (Fits size len) := inferInstanceAs (Decidable (_ ∧ _))

instance (buffer : Bytes) : Decidable (Terminated size buffer) := inferInstanceAs (Decidable (_ < _))

/-- Whether the main loop has nothing to do with the line. -/
def Periodic.leavesLine : Periodic → Bool
  | .idle | .startReply => true
  | _ => false

/-- The command that returns does not fail, its reply fits, and a text that is to be parsed again is
still a string. -/
def Succeeds (func : Option (Answer (size + 2))) (state : State) (cmd : List UInt8) : Prop :=
  isEcmdErr (result cmd func) = false ∧ Fits size (outputLength (result cmd func)) ∧
    (isEcmdAgain (result cmd func) = true →
      Terminated size (func.elim state.recv_buffer (·.edits state.recv_buffer)))

/-- A byte finds room and a main loop that has nothing to do with the line, or it is refused. -/
def Admits (size : Nat) (error : Bool) (data : UInt8) (state : State) : Prop :=
  error = false → state.must_parse = false →
    state.periodic.leavesLine = true ∧ state.recv_len.toNat < size ∧
      (endsLine data = true ∨ state.recv_len.toNat < 255)

def Sound (state : State) : Event size → Prop
  | .receive error data => Admits size error data state
  | .transmit => True
  | .periodic func =>
      match state.periodic with
      | .called cmd => Succeeds func state cmd
      | _ => True

instance (func : Option (Answer (size + 2))) (state : State) (cmd : List UInt8) :
    Decidable (Succeeds func state cmd) := inferInstanceAs (Decidable (_ ∧ _ ∧ (_ → _)))

instance (state : State) : ∀ event : Event size, Decidable (Sound state event)
  | .receive _ _ => inferInstanceAs (Decidable (_ → _ → _ ∧ _ ∧ (_ ∨ _)))
  | .transmit => isTrue trivial
  | .periodic _ => by
      simp only [Sound]
      split <;> infer_instance

/-! ## The invariant -/

/-- The receive buffer holds the bytes. -/
def Holds (state : State) (bytes : List UInt8) : Prop :=
  state.recv_len.toNat = bytes.length ∧ AgreeTo bytes.length state.recv_buffer (cString bytes)

/-- The line that is to be parsed. -/
def Complete (size : Nat) (state : State) : Line → Prop
  | .collecting _ => False
  | .complete bytes => Holds state bytes ∧ bytes.length < size ∧ state.recv_buffer bytes.length = 0
  | .again => 2 ≤ state.recv_len.toNat ∧ Terminated size state.recv_buffer

/-- The line in the receive buffer. -/
def Held (size : Nat) (state : State) (line : Line) : Prop :=
  if state.must_parse then Complete size state line
  else ∃ bytes, line = .collecting bytes ∧ Holds state bytes

/-- The reply in the write buffer. -/
def Sends (size : Nat) (state : State) : Prop :=
  if state.TXCIE then
    0 < state.write_len ∧ state.sent.toNat ≤ state.write_len ∧ state.write_len ≤ size + 2 ∧
      state.write_len ≤ 255
  else state.write_len = 0

/-- What the main loop relies on at each of its steps. -/
def Relies (size : Nat) (state : State) (line : Line) : Prop :=
  match state.periodic with
  | .idle => True
  | .clearMustParse => state.must_parse = true ∧ Complete size state line ∧ state.write_len = 0
  | .testRecvLen => Complete size state line ∧ state.write_len = 0
  | .dropLine => state.write_len = 0
  | .call => Complete size state line ∧ 2 ≤ state.recv_len.toNat
  | .called _ => 2 ≤ state.recv_len.toNat
  | .testResult =>
      isEcmdErr state.write_len = false ∧ Fits size (outputLength state.write_len) ∧
        (isEcmdAgain state.write_len = true →
          2 ≤ state.recv_len.toNat ∧ Terminated size state.recv_buffer)
  | .convertAgain =>
      Fits size (ECMD_AGAIN state.write_len) ∧ 2 ≤ state.recv_len.toNat ∧
        Terminated size state.recv_buffer
  | .clearRecvLen => Fits size state.write_len
  | .startReply => Fits size state.write_len

structure Inv (size : Nat) (system : System) : Prop where
  relies : Relies size system.state system.line
  /-- While the main loop is busy with the line, a byte would be taken. -/
  busy : system.state.periodic.leavesLine = false → system.state.periodic ≠ .clearMustParse →
    system.state.must_parse = false
  held : system.state.periodic.leavesLine = true → Held size system.state system.line
  sends : system.state.periodic = .idle → Sends size system.state
  quiet : system.state.periodic ≠ .idle → system.state.TXCIE = false
  parsed : ∀ call ∈ system.calls, Parsed call

theorem inv_start (recv_buffer write_buffer : Bytes) : Inv size (start recv_buffer write_buffer) where
  relies := trivial
  busy busy := by cases busy
  held _ := ⟨[], rfl, rfl, fun _ small => absurd small (Nat.not_lt_zero _)⟩
  sends _ := rfl
  quiet busy := absurd rfl busy
  parsed _ member := absurd member List.not_mem_nil

/-! ## Interrupts -/

variable {system : System} {state other : State} {line : Line} {bytes : List UInt8}

theorem Complete.receive (complete : Complete size state line) (data : UInt8) :
    line.receive data = line := by
  cases line with
  | collecting bytes => exact complete.elim
  | complete bytes => rfl
  | again => rfl

/-- A line that the receiver waits for is complete. -/
theorem Inv.complete (inv : Inv size system) (parse : system.state.must_parse = true) :
    Complete size system.state system.line := by
  by_cases leaves : system.state.periodic.leavesLine = true
  · have held := inv.held leaves
    rwa [Held, if_pos parse] at held
  · have still : system.state.periodic = .clearMustParse := by
      by_contra other
      rw [inv.busy (Bool.not_eq_true _ ▸ leaves) other] at parse
      cases parse
    have relies := inv.relies
    rw [Relies, still] at relies
    exact relies.2.1

theorem Relies.of_leavesLine (relies : Relies size state line)
    (leaves : state.periodic.leavesLine = true) (same : other.periodic = state.periodic)
    (len : other.write_len = state.write_len) (line' : Line) : Relies size other line' := by
  rw [Relies] at relies ⊢
  rw [same, len]
  cases pc : state.periodic <;> rw [pc] at leaves relies
  case idle => trivial
  case startReply => exact relies
  all_goals cases leaves

theorem Holds.push (holds : Holds state bytes) (room : state.recv_len.toNat < 255) (data : UInt8) :
    Holds { state with
        transmitted := state.transmitted ++ [data]
        recv_buffer := Function.update state.recv_buffer state.recv_len.toNat data
        recv_len := state.recv_len + 1 } (bytes ++ [data]) := by
  constructor
  · have length := holds.1
    rw [List.length_append, List.length_singleton, UInt8.toNat_add]
    exact (Nat.mod_eq_of_lt (Nat.succ_lt_succ room)).trans (congrArg (· + 1) length)
  · intro k small
    rw [List.length_append, List.length_singleton] at small
    simp only [holds.1, cString]
    by_cases last : k = bytes.length
    · rw [last, Function.update_self, List.getD_append_right _ _ _ _ le_rfl, Nat.sub_self]
      rfl
    · rw [Function.update_of_ne last, List.getD_append _ _ _ _ (by omega)]
      exact holds.2 k (by omega)

theorem Holds.terminate (holds : Holds state bytes) (room : state.recv_len.toNat < size) :
    Complete size { state with
        recv_buffer := Function.update state.recv_buffer state.recv_len.toNat 0
        must_parse := true
        transmitted := state.transmitted ++ [13, 10] } (.complete bytes) := by
  refine ⟨⟨holds.1, fun k small => ?_⟩, holds.1 ▸ room, ?_⟩
  · exact (Function.update_of_ne (by rw [holds.1]; omega) ..).trans (holds.2 k small)
  · simp only [holds.1, Function.update_self]

/-- An interrupt that leaves what the main loop and the transmitter work on as it is. -/
theorem Inv.ofSame (inv : Inv size system) (leaves : system.state.periodic.leavesLine = true)
    (pc : other.periodic = system.state.periodic) (len : other.write_len = system.state.write_len)
    (sent : other.sent = system.state.sent) (interrupt : other.TXCIE = system.state.TXCIE)
    (held : Held size other line) : Inv size ⟨other, line, system.calls⟩ where
  relies := inv.relies.of_leavesLine leaves pc len line
  busy busy := by
    rw [pc, leaves] at busy
    cases busy
  held _ := held
  sends idle := by
    have sends := inv.sends (pc.symm.trans idle)
    rw [Sends] at sends ⊢
    rwa [interrupt, len, sent]
  quiet busy := interrupt.trans (inv.quiet (pc ▸ busy))
  parsed := inv.parsed

/-- The condition for a byte that the receiver waits for. -/
theorem Inv.admits (inv : Inv size system) (idle : system.state.periodic = .idle)
    (line : system.line = .collecting bytes) {data : UInt8} (room : bytes.length < size)
    (counts : endsLine data = true ∨ bytes.length < 255) : Admits size false data system.state := by
  intro _ free
  have leaves : system.state.periodic.leavesLine = true := by
    rw [idle]
    rfl
  have held := inv.held leaves
  rw [Held, if_neg (by simp [free]), line] at held
  obtain ⟨bytes, same, holds⟩ := held
  cases same
  rw [holds.1]
  exact ⟨leaves, room, counts⟩

theorem Inv.receive (inv : Inv size system) {error : Bool} {data : UInt8}
    (admits : Admits size error data system.state) :
    ∃ other, rxVect size error data system.state = some other ∧
      other.periodic = system.state.periodic ∧ other.TXCIE = system.state.TXCIE ∧
      Inv size ⟨other, if error then system.line else system.line.receive data, system.calls⟩ := by
  by_cases refused : error = true ∨ system.state.must_parse = true
  · refine ⟨system.state, if_pos refused, rfl, rfl, ?_⟩
    have same : (if error then system.line else system.line.receive data) = system.line := by
      cases error with
      | true => rfl
      | false => exact (inv.complete (refused.resolve_left (by decide))).receive data
    rw [same]
    exact inv
  obtain ⟨ok, free⟩ := not_or.mp refused
  rw [Bool.not_eq_true] at ok free
  obtain ⟨leaves, room, counts⟩ := admits ok free
  have held := inv.held leaves
  rw [Held, if_neg (by simp [free])] at held
  obtain ⟨bytes, collecting, holds⟩ := held
  rw [rxVect, if_neg refused]
  simp only [ok, Bool.false_eq_true, if_false, collecting, room.ne, or_false, room, if_true]
  by_cases ends : endsLine data = true
  · rw [if_pos ends, Line.receive, if_pos ends]
    exact ⟨_, rfl, rfl, rfl, inv.ofSame leaves rfl rfl rfl rfl (holds.terminate room)⟩
  · rw [if_neg ends, Line.receive, if_neg ends]
    refine ⟨_, rfl, rfl, rfl, inv.ofSame leaves rfl rfl rfl rfl ?_⟩
    rw [Held, if_neg (by simp [free])]
    exact ⟨_, rfl, holds.push (counts.resolve_left ends) data⟩

/-- What is left of the reply. -/
def left (state : State) : Int := state.write_len - state.sent.toNat

theorem Inv.transmit (inv : Inv size system) :
    ∃ other, txVect size system.state = some other ∧ Inv size ⟨other, system.line, system.calls⟩ ∧
      (other.TXCIE = true → left other < left system.state) := by
  by_cases enabled : system.state.TXCIE = true
  swap
  · exact ⟨system.state, if_pos enabled, inv, fun on => absurd on enabled⟩
  have idle : system.state.periodic = .idle := by
    by_contra busy
    rw [inv.quiet busy] at enabled
    cases enabled
  have sends := inv.sends idle
  rw [Sends, if_pos enabled] at sends
  obtain ⟨positive, sent, room, counts⟩ := sends
  have held := inv.held (by rw [idle]; rfl)
  have build (other : State) (pc : other.periodic = .idle) (same : Held size other system.line)
      (sends : Sends size other) : Inv size ⟨other, system.line, system.calls⟩ := {
    relies := by
      simp only [Relies, pc]
    busy := fun busy => by
      simp only [pc] at busy
      cases busy
    held := fun _ => same
    sends := fun _ => sends
    quiet := fun busy => absurd pc busy
    parsed := inv.parsed }
  rw [txVect, if_neg (not_not_intro enabled)]
  by_cases more : (system.state.sent.toNat : Int) < system.state.write_len
  · rw [if_pos more, if_pos (by omega)]
    have counted : (system.state.sent + 1).toNat = system.state.sent.toNat + 1 :=
      (UInt8.toNat_add _ _).trans (Nat.mod_eq_of_lt (by show _ + 1 < 256; omega))
    have still : ((system.state.sent + 1).toNat : Int) ≤ system.state.write_len := by omega
    refine ⟨_, rfl, build _ idle held ?_, fun _ => ?_⟩
    · rw [Sends, if_pos enabled]
      exact ⟨positive, still, room, counts⟩
    · simp only [left]
      omega
  · rw [if_neg more]
    exact ⟨_, rfl, build _ idle held rfl, fun on => by cases on⟩

/-! ## The main loop -/

/-- The text in the receive buffer is that of a complete line. -/
theorem Complete.text (complete : Complete size state line) :
    Terminated size state.recv_buffer ∧ Parsed (fieldText size state.recv_buffer, line) := by
  cases line with
  | collecting bytes => exact complete.elim
  | complete bytes =>
      obtain ⟨holds, short, ends⟩ := complete
      have text := fieldText_eq_takeWhile holds.2 ends short
      refine ⟨?_, text⟩
      rw [Terminated, text]
      exact (List.takeWhile_prefix _).length_le.trans_lt short
  | again => exact ⟨complete.2, trivial⟩

theorem print_eq {text : List UInt8} (fits : text.length ≤ size + 2) (state : State) :
    ∃ write_buffer, print size text state = some { state with write_buffer } := ⟨_, if_pos fits⟩

/-- The parser changes nothing but the buffers. -/
theorem ecmdParseCommand_of_succeeds {func : Option (Answer (size + 2))} {cmd : List UInt8}
    (succeeds : Succeeds func state cmd) :
    ∃ recv_buffer write_buffer,
      ecmdParseCommand cmd func state = some { state with recv_buffer, write_buffer } ∧
        (isEcmdAgain (result cmd func) = true → Terminated size recv_buffer) := by
  obtain ⟨-, fits, again⟩ := succeeds
  have buffers : ∃ write_buffer, func.elim state (apply · state) =
      { state with
        recv_buffer := func.elim state.recv_buffer (·.edits state.recv_buffer)
        write_buffer } := by
    cases func with
    | none => exact ⟨_, rfl⟩
    | some answer => exact ⟨_, rfl⟩
  obtain ⟨write_buffer, buffers⟩ := buffers
  rw [ecmdParseCommand]
  by_cases short : cmd.length < 2
  · rw [if_pos short]
    refine ⟨_, _, rfl, fun again => ?_⟩
    rw [result, if_pos short] at again
    cases again
  rw [if_neg short]
  simp only [buffers]
  split
  · next failed =>
      have printed : parseErrorText.length ≤ size + 2 := by
        rw [result, if_neg short, failed] at fits
        have : (11 : Int) ≤ size := fits.2.1
        show 11 ≤ size + 2
        omega
      obtain ⟨write_buffer, printed⟩ := print_eq printed _
      exact ⟨_, write_buffer, printed, again⟩
  · have fits : okText.length ≤ size + 2 := Nat.le_add_left 2 size
    obtain ⟨write_buffer, printed⟩ := print_eq fits _
    exact ⟨_, write_buffer, printed, again⟩
  · exact ⟨_, write_buffer, rfl, again⟩

/-- The main loop is busy with the line. -/
theorem Inv.ofBusy {calls : List (List UInt8 × Line)} (relies : Relies size state line)
    (waiting : state.must_parse = false) (quiet : state.TXCIE = false)
    (busy : state.periodic.leavesLine = false) (parsed : ∀ call ∈ calls, Parsed call) :
    Inv size ⟨state, line, calls⟩ where
  relies
  busy _ _ := waiting
  held leaves := by
    rw [busy] at leaves
    cases leaves
  sends idle := by
    rw [idle] at busy
    cases busy
  quiet _ := quiet
  parsed

/-- The main loop is done with the line, or has a reply to send. -/
theorem Inv.ofDone {calls : List (List UInt8 × Line)} (relies : Relies size state line)
    (leaves : state.periodic.leavesLine = true) (held : Held size state line)
    (sends : state.periodic = .idle → Sends size state)
    (quiet : state.periodic ≠ .idle → state.TXCIE = false) (parsed : ∀ call ∈ calls, Parsed call) :
    Inv size ⟨state, line, calls⟩ where
  relies
  busy busy := by
    rw [leaves] at busy
    cases busy
  held _ := held
  sends
  quiet
  parsed

/-- An empty receive buffer. -/
theorem held_nil (free : state.must_parse = false) (empty : state.recv_len = 0) :
    Held size state (.collecting []) := by
  rw [Held, if_neg (by simp [free])]
  exact ⟨[], rfl, by rw [empty]; rfl, fun _ small => absurd small (Nat.not_lt_zero _)⟩

/-- The calls of the parser after a step of the main loop. -/
abbrev callsAfter (size : Nat) (system : System) : List (List UInt8 × Line) :=
  if system.state.periodic = .call then
    system.calls ++ [(fieldText size system.state.recv_buffer, system.line)]
  else system.calls

theorem Inv.periodicStep (inv : Inv size system) {func : Option (Answer (size + 2))}
    (sound : Sound system.state (.periodic func)) :
    ∃ other, periodicStep func system.state = some other ∧
      Inv size ⟨other, lineAfter system.state system.line, callsAfter size system⟩ := by
  obtain ⟨state, line, calls⟩ := system
  obtain ⟨relies, waiting, held, sends, quiet, parsed⟩ := inv
  simp only at relies waiting held sends quiet parsed sound ⊢
  cases pc : state.periodic <;>
    simp only [pc, Relies, Sound, Usart.periodicStep, lineAfter, callsAfter, reduceCtorEq, if_false,
      if_true, forall_const, ne_eq, not_false_eq_true, not_true_eq_false, false_imp_iff,
      Periodic.leavesLine, Bool.true_eq_false, Bool.false_eq_true]
      at relies waiting held sends quiet sound ⊢
  case idle =>
    by_cases request : state.must_parse = true ∧ state.write_len = 0
    · rw [if_pos request]
      have complete := held
      rw [Held, if_pos request.1] at complete
      have silent : state.TXCIE = false := by
        by_contra busy
        rw [Bool.not_eq_false] at busy
        rw [Sends, if_pos busy] at sends
        exact absurd request.2 sends.1.ne'
      exact ⟨_, rfl, {
        relies := ⟨request.1, complete, request.2⟩
        busy := fun _ other => absurd rfl other
        held := fun leaves => by cases leaves
        sends := fun idle => by cases idle
        quiet := fun _ => silent
        parsed := parsed }⟩
    · rw [if_neg request]
      exact ⟨_, rfl, .ofDone (by rw [Relies, pc]; trivial) (by rw [pc]; rfl) held (fun _ => sends)
        (fun busy => absurd pc busy) parsed⟩
  case clearMustParse =>
    exact ⟨_, rfl, .ofBusy relies.2 rfl quiet rfl parsed⟩
  case testRecvLen =>
    by_cases short : state.recv_len ≤ 1
    · rw [if_pos short]
      exact ⟨_, rfl, .ofBusy relies.2 waiting quiet rfl parsed⟩
    · rw [if_neg short]
      have long : 2 ≤ state.recv_len.toNat := by
        rw [UInt8.le_iff_toNat_le] at short
        exact not_le.mp short
      exact ⟨_, rfl, .ofBusy ⟨relies.1, long⟩ waiting quiet rfl parsed⟩
  case dropLine =>
    exact ⟨_, rfl, .ofDone trivial rfl (held_nil waiting rfl)
      (fun _ => by rw [Sends, if_neg (by simp [quiet])]; exact relies) (fun busy => absurd rfl busy) parsed⟩
  case call =>
    obtain ⟨terminated, text⟩ := relies.1.text
    refine ⟨_, if_pos terminated, .ofBusy relies.2 waiting quiet rfl fun call member => ?_⟩
    rcases List.mem_append.mp member with old | new
    · exact parsed call old
    · rw [List.mem_singleton.mp new]
      exact text
  case called cmd =>
    obtain ⟨recv_buffer, write_buffer, same, terminated⟩ := ecmdParseCommand_of_succeeds sound
    rw [same]
    exact ⟨_, rfl, .ofBusy ⟨sound.1, sound.2.1, fun again => ⟨relies, terminated again⟩⟩ waiting quiet
      rfl parsed⟩
  case testResult =>
    obtain ⟨succeeded, fits, again⟩ := relies
    rw [succeeded]
    refine ⟨_, rfl, ?_⟩
    rw [outputLength] at fits
    by_cases continued : isEcmdAgain state.write_len = true
    · rw [if_pos continued] at fits
      simp only [continued, if_true]
      exact .ofBusy ⟨fits, again continued⟩ waiting quiet rfl parsed
    · rw [if_neg continued] at fits
      simp only [continued]
      exact .ofBusy fits waiting quiet rfl parsed
  case convertAgain =>
    exact ⟨_, rfl, .ofDone relies.1 rfl relies.2 (fun idle => by cases idle) (fun _ => quiet) parsed⟩
  case clearRecvLen =>
    exact ⟨_, rfl, .ofDone relies rfl (held_nil waiting rfl) (fun idle => by cases idle) (fun _ => quiet)
      parsed⟩
  case startReply =>
    obtain ⟨positive, room, counts⟩ := relies
    refine ⟨_, if_pos ⟨positive, by omega⟩, .ofDone trivial rfl held (fun _ => ?_)
      (fun busy => absurd rfl busy) parsed⟩
    have sends : 0 < state.write_len + 2 ∧ (1 : Int) ≤ state.write_len + 2 ∧
        state.write_len + 2 ≤ size + 2 ∧ state.write_len + 2 ≤ 255 := by omega
    exact sends

/-! ## Runs -/

theorem Inv.step (inv : Inv size system) {event : Event size} (sound : Sound system.state event) :
    ∃ next, step (some system) event = some next ∧ Inv size next := by
  cases event with
  | receive error data =>
      obtain ⟨other, received, -, -, inv⟩ := inv.receive sound
      exact ⟨_, congrArg (Option.map _) received, inv⟩
  | transmit =>
      obtain ⟨other, transmitted, inv, -⟩ := inv.transmit
      exact ⟨_, congrArg (Option.map _) transmitted, inv⟩
  | periodic func =>
      obtain ⟨other, stepped, inv⟩ := inv.periodicStep sound
      exact ⟨_, congrArg (Option.map _) stepped, inv⟩

/-- The transmit interrupt sends what is left of the reply. -/
theorem Inv.transmits (inv : Inv size system) (count : Nat)
    (enough : system.state.TXCIE = true → left system.state < count) :
    ∃ after, (List.replicate count (.transmit : Event size)).foldl Usart.step (some system) = some after ∧
      after.state.TXCIE = false := by
  induction count generalizing system with
  | zero =>
      refine ⟨system, rfl, ?_⟩
      by_contra busy
      rw [Bool.not_eq_false] at busy
      have idle : system.state.periodic = .idle := by
        by_contra other
        rw [inv.quiet other] at busy
        cases busy
      have sends := inv.sends idle
      rw [Sends, if_pos busy] at sends
      have none := enough busy
      rw [left] at none
      omega
  | succ count ih =>
      obtain ⟨other, transmitted, kept, fewer⟩ := inv.transmit
      obtain ⟨after, run, idle⟩ := ih kept fun on => by
        have before := fewer on
        have enabled : system.state.TXCIE = true := by
          by_contra off
          rw [txVect, if_pos off] at transmitted
          cases transmitted
          exact off on
        have := enough enabled
        show left other < count
        omega
      refine ⟨after, ?_, idle⟩
      have first : Usart.step (some system) (.transmit : Event size) =
          some ⟨other, system.line, system.calls⟩ := congrArg (Option.map _) transmitted
      rw [List.replicate_succ, List.foldl_cons, first, run]

/-- The bytes of a line arrive. -/
theorem Inv.receives (inv : Inv size system) (idle : system.state.periodic = .idle) {rest : List UInt8}
    (line : system.line = .collecting bytes) (inside : ∀ data ∈ rest, endsLine data = false)
    (short : (bytes ++ rest).length < min size 256) :
    ∃ next, (rest.map (.receive false : UInt8 → Event size)).foldl Usart.step (some system) = some next ∧
      Inv size next ∧ next.state.periodic = .idle ∧ next.state.TXCIE = system.state.TXCIE ∧
      next.line = .collecting (bytes ++ rest) := by
  induction rest generalizing system bytes with
  | nil => exact ⟨system, rfl, inv, idle, rfl, by rw [line, List.append_nil]⟩
  | cons data rest ih =>
      have admits : Admits size false data system.state :=
        inv.admits idle line (by simp at short ⊢; omega) (.inr (by simp at short; omega))
      obtain ⟨other, received, pc, same, kept⟩ := inv.receive admits
      have pushed : system.line.receive data = .collecting (bytes ++ [data]) := by
        rw [line, Line.receive, inside data List.mem_cons_self]
        rfl
      have whole : bytes ++ [data] ++ rest = bytes ++ data :: rest := List.append_assoc ..
      obtain ⟨next, run, inv, idle, interrupt, line⟩ := ih kept (pc.trans idle) pushed
        (fun other member => inside other (List.mem_cons_of_mem _ member)) (whole ▸ short)
      refine ⟨next, ?_, inv, idle, interrupt.trans same, whole ▸ line⟩
      have first : Usart.step (some system) (.receive false data : Event size) =
          some ⟨other, system.line.receive data, system.calls⟩ := congrArg (Option.map _) received
      rw [List.map_cons, List.foldl_cons, first]
      exact run

section Call

variable (idle : system.state.periodic = .idle) (parse : system.state.must_parse = true)
  (silent : system.state.write_len = 0)

include idle parse silent

/-- A call of `ecmd_serial_usart_periodic` that finds a request. -/
theorem periodicCalled_eq : (periodicCalled size).foldl step (some system) =
    step (some
      ⟨{ system.state with
          must_parse := false
          periodic := if system.state.recv_len ≤ 1 then .dropLine else .call },
        system.line, system.calls⟩) (.periodic none : Event size) := by
  obtain ⟨state, line, calls⟩ := system
  simp only at idle parse silent
  simp [periodicCalled, List.replicate, step, next, periodicStep, history, lineAfter, idle, parse, silent]

theorem parses_of_complete (complete : Complete size system.state system.line)
    (long : 2 ≤ system.state.recv_len.toNat) :
    Parses size system (fieldText size system.state.recv_buffer) := by
  have more : ¬system.state.recv_len ≤ 1 := by
    rw [UInt8.le_iff_toNat_le]
    exact not_le.mpr long
  rw [Parses, periodicCalled_eq idle parse silent, if_neg more]
  exact ⟨_, congrArg (Option.map _) (if_pos complete.text.1), rfl⟩

theorem drops_of_complete (short : system.state.recv_len.toNat < 2) : Drops size system := by
  have few : system.state.recv_len ≤ 1 := UInt8.le_iff_toNat_le.mpr (Nat.le_of_lt_succ short)
  rw [Drops, periodicCalled_eq idle parse silent, if_pos few]
  exact ⟨_, rfl, rfl, rfl, rfl⟩

end Call

theorem Inv.handlesComplete (inv : Inv size system) (idle : system.state.periodic = .idle)
    (silent : system.state.TXCIE = false) (line : system.line = .complete bytes) :
    Handles size system (.complete bytes) := by
  have held := inv.held (by rw [idle]; rfl)
  have sends := inv.sends idle
  rw [Sends, if_neg (by simp [silent])] at sends
  by_cases parse : system.state.must_parse = true
  · rw [Held, if_pos parse, line] at held
    obtain ⟨holds, short, ends⟩ := held
    rw [Handles]
    split
    · next few => exact drops_of_complete idle parse sends (by rw [holds.1]; exact few)
    · next many =>
        rw [← fieldText_eq_takeWhile holds.2 ends short]
        exact parses_of_complete idle parse sends (line ▸ ⟨holds, short, ends⟩)
          (by rw [holds.1]; exact not_lt.mp many)
  · rw [Held, if_neg parse, line] at held
    obtain ⟨_, other, -⟩ := held
    cases other

/-- The rest of the line arrives, and the line is parsed. -/
theorem Inv.handlesCollecting (inv : Inv size system) (idle : system.state.periodic = .idle)
    (silent : system.state.TXCIE = false) (line : system.line = .collecting bytes) :
    Handles size system (.collecting bytes) := by
  intro rest inside long short
  obtain ⟨middle, run, inv, idle, same, line⟩ := inv.receives idle line inside short
  have admits : Admits size false 10 middle.state :=
    inv.admits idle line (lt_of_lt_of_le short (min_le_left ..)) (.inl rfl)
  obtain ⟨other, received, pc, off, inv⟩ := inv.receive admits
  have ended : middle.line.receive 10 = .complete (bytes ++ rest) := by
    rw [line]
    rfl
  have parses := inv.handlesComplete (pc.trans idle) (off.trans (same.trans silent)) ended
  rw [Handles, if_neg (not_lt.mpr long)] at parses
  refine ⟨_, ?_, ended, parses⟩
  rw [arrivals, List.map_append, List.foldl_append, run]
  exact congrArg (Option.map _) received

theorem Inv.handlesAgain (inv : Inv size system) (idle : system.state.periodic = .idle)
    (silent : system.state.TXCIE = false) (line : system.line = .again) :
    Handles size system .again := by
  have held := inv.held (by rw [idle]; rfl)
  have sends := inv.sends idle
  rw [Sends, if_neg (by simp [silent])] at sends
  by_cases parse : system.state.must_parse = true
  · rw [Held, if_pos parse] at held
    have long := held
    rw [line] at long
    exact ⟨_, parses_of_complete idle parse sends held long.1⟩
  · rw [Held, if_neg parse, line] at held
    obtain ⟨_, other, -⟩ := held
    cases other

theorem Inv.responsive (inv : Inv size system) : Responsive size system where
  parsed := inv.parsed
  transmits :=
    ⟨(left system.state).toNat + 1, inv.transmits _ fun _ => by
      push_cast
      omega⟩
  handles idle silent := by
    cases line : system.line with
    | collecting bytes => exact inv.handlesCollecting idle silent line
    | complete bytes => exact inv.handlesComplete idle silent line
    | again => exact inv.handlesAgain idle silent line

/-- The condition in a state, if that is defined. -/
def SoundIn (system : Option System) (event : Event size) : Prop :=
  match system with
  | none => True
  | some system => Sound system.state event

instance : ∀ (system : Option System) (event : Event size), Decidable (SoundIn system event)
  | none, _ => isTrue trivial
  | some system, event => inferInstanceAs (Decidable (Sound system.state event))

/-- As long as every byte that the port takes finds room and does not come in between, and every
command succeeds with a reply that fits, no access is outside a buffer and the port stays open. -/
theorem responsive_of_eachMeets (size : Nat) (recv_buffer write_buffer : Bytes)
    (events : List (Event size))
    (sound : EachMeets step SoundIn (some (start recv_buffer write_buffer)) events) :
    ∃ system, events.foldl step (some (start recv_buffer write_buffer)) = some system ∧
      Responsive size system := by
  have keeps (system : Option System) (event : Event size)
      (reached : ∃ here, system = some here ∧ Inv size here) (sound : SoundIn system event) :
      ∃ next, step system event = some next ∧ Inv size next := by
    obtain ⟨_, rfl, inv⟩ := reached
    exact inv.step sound
  obtain ⟨system, run, inv⟩ := sound.invariant keeps ⟨_, rfl, inv_start recv_buffer write_buffer⟩
  exact ⟨system, run, inv.responsive⟩

/-- The buffers, before anything came. -/
def zeros : Bytes := fun _ => 0

/-- A line that names no command, and the beginning of the reply. -/
def unknownCommand : List (Event 50) :=
  arrivals 50 [97, 98] ++ List.replicate 8 (.periodic none) ++ [.transmit]

theorem responsive_of_eachMeets_unknownCommand :
    ∃ system, unknownCommand.foldl step (some (start zeros zeros)) = some system ∧
      Responsive 50 system :=
  responsive_of_eachMeets 50 zeros zeros unknownCommand (by decide)

/-- A command that fails to read something. -/
def readError : Answer 52 where
  ret := -2
  output := []
  edits := id
  proper := by decide
  fits := by decide

def failedCommand : List (Event 50) :=
  arrivals 50 [97, 98] ++ List.replicate 7 (.periodic (some readError))

/-- After a command failed, a line is not parsed any more. -/
theorem not_responsive :
    ¬∀ (size : Nat) (recv_buffer write_buffer : Bytes) (events : List (Event size)),
      ∃ system, events.foldl step (some (start recv_buffer write_buffer)) = some system ∧
        Responsive size system := by
  intro always
  obtain ⟨system, run, responsive⟩ := always 50 zeros zeros failedCommand
  have state : (failedCommand.foldl step (some (start zeros zeros))).map
      (fun system => (system.state.periodic, system.state.TXCIE, system.line)) =
        some (.idle, false, .collecting []) := by decide
  have before : ((arrivals 50 [97, 98]).foldl step
      (failedCommand.foldl step (some (start zeros zeros)))).map (·.calls.length) = some 1 := by decide
  have behind : ((periodicCalled 50).foldl step ((arrivals 50 [97, 98]).foldl step
      (failedCommand.foldl step (some (start zeros zeros))))).map (·.calls.length) = some 1 := by decide
  rw [run, Option.map_some, Option.some.injEq, Prod.mk.injEq, Prod.mk.injEq] at state
  obtain ⟨idle, silent, line⟩ := state
  have handles := responsive.handles idle silent
  have inside : ∀ data ∈ ([97, 98] : List UInt8), endsLine data = false := by simp [endsLine]
  rw [line] at handles
  obtain ⟨heard, arrived, -, after, called, calls⟩ := handles [97, 98] inside (by decide) (by decide)
  rw [run, arrived, Option.map_some, Option.some.injEq] at before
  rw [run, arrived, called, Option.map_some, Option.some.injEq] at behind
  have grown := congrArg List.length calls
  rw [behind, List.length_append, before] at grown
  exact absurd grown (Nat.ne_of_lt (Nat.lt_succ_self 1))

end Ethersex.Ecmd.Usart
