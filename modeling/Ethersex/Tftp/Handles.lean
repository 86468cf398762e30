import Mathlib
import Ethersex.Library.Handles
import Ethersex.Tftp.Upload

/-!
# The handle of the TFTP server

The server has room for one handle.  A request puts a new one there whatever there was before, and
blocks and acknowledgements use what is there, also when that is nothing.
-/

namespace Ethersex.Tftp

open Library HandleCall

section Sessions

variable {Store Handle : Type} (vfs : Vfs Store Handle)

/-! ## A virtual file system that keeps a log -/

/-- A handle that was opened gets a number. -/
def number (log : List HandleCall) : Option Handle × Store → Option (Nat × Handle) × Store × List HandleCall
  | (none, store) => (none, store, log)
  | (some fh, store) => (some (openings log, fh), store, .opened (openings log) :: log)

def logged : Vfs (Store × List HandleCall) (Nat × Handle) where
  vfsOpen := fun name world => number world.2 (vfs.vfsOpen name world.1)
  vfsCreate := fun name world => number world.2 (vfs.vfsCreate name world.1)
  vfsRead := fun fh length world =>
    let (data, handle, store) := vfs.vfsRead fh.2 length world.1
    (data, (fh.1, handle), store, .used fh.1 :: world.2)
  vfsWrite := fun fh data world =>
    let (written, handle, store) := vfs.vfsWrite fh.2 data world.1
    (written, (fh.1, handle), store, .used fh.1 :: world.2)
  vfsClose := fun fh world => (vfs.vfsClose fh.2 world.1, .closed fh.1 :: world.2)

/-! ## Sessions -/

/-- The server, the files with the log, and whether no request is being served any more. -/
structure Session (Store Handle : Type) where
  state : State (Nat × Handle)
  world : Store × List HandleCall
  idle : Bool

/-- The server after it was switched on. -/
def Session.start (state : State (Nat × Handle)) (store : Store) : Session Store Handle :=
  ⟨{ state with fh := none }, (store, []), true⟩

def Packet.isRequest : Packet → Bool
  | .readRequest _ | .writeRequest _ => true
  | _ => false

/-- A request has failed, its last block was acknowledged, or the last block was acknowledged by the client. -/
def ends (packet : Packet) (answers : List Packet) (finished : Bool) : Bool :=
  answers.contains .error ||
    match packet with
    | .ack _ => answers.isEmpty
    | .data _ _ => finished
    | _ => false

/-- A datagram arrives. -/
def Session.step (session : Session Store Handle) (packet : Packet) : Option (Session Store Handle) :=
  (tftpHandlePacket (logged vfs) packet session.state session.world).map fun (state, world, answers) =>
    ⟨state, world, (!packet.isRequest && session.idle) || ends packet answers state.finished⟩

def Session.run : List Packet → Session Store Handle → Option (Session Store Handle)
  | [], session => some session
  | packet :: rest, session => (session.step vfs packet).bind (run rest)

variable (session : Session Store Handle)

/-- Only open handles are used and closed; at most one is open at a time; and every handle that was opened is
closed once, unless it is the last one and its request is still being served. -/
structure Disciplined : Prop where
  needs : ∀ later call earlier, session.world.2 = later ++ call :: earlier → ∀ id, call.Needs id → IsOpen earlier id
  single : ∀ later earlier, session.world.2 = later ++ earlier →
    ∀ id other, IsOpen earlier id → IsOpen earlier other → id = other
  closes : ∀ id, .opened id ∈ session.world.2 → session.idle = true ∨ id + 1 < openings session.world.2 →
    session.world.2.count (.closed id) = 1

/-- A request comes when no file is open, and a block or an acknowledgement that leads to writing or reading
comes when there is one. -/
def Session.Meets : Packet → Prop
  | .readRequest _ | .writeRequest _ => session.state.fh = none
  | .ack block =>
      session.state.download = true → ¬(block < session.state.transfered ∨ (session.state.transfered + 1) % 2 ^ 16 < block) →
        session.state.finished = false → session.state.fh ≠ none
  | .data block _ =>
      session.state.download = false → session.state.transfered < block → block ≤ (session.state.transfered + 1) % 2 ^ 16 →
        session.state.fh ≠ none
  | .error => True

def Session.AllMeet : List Packet → Session Store Handle → Prop
  | [], _ => True
  | packet :: rest, session =>
      session.Meets packet ∧ ∀ next, session.step vfs packet = some next → AllMeet rest next

end Sessions

/-! ## Steps of the server -/

section Steps

variable {Store Handle : Type} {vfs : Vfs Store Handle}

/-- The log is proper for the handle that the server has. -/
def Fits (state : State (Nat × Handle)) (world : Store × List HandleCall) : Prop :=
  Proper world.2 (state.fh.map Prod.fst)

variable {state : State (Nat × Handle)} {world : Store × List HandleCall}

variable (vfs) in
theorem closeConnection_fits (fits : Fits state world) (answers : List Packet) :
    ∃ state' world', closeConnection (logged vfs) state world answers = (state', world', answers) ∧
      state'.fh = none ∧ Fits state' world' := by
  rw [closeConnection]
  cases opened : state.fh with
  | none => exact ⟨state, world, rfl, opened, fits⟩
  | some fh =>
      rw [Fits, opened] at fits
      exact ⟨_, _, rfl, rfl, .closed fits⟩

variable (vfs) in
theorem sendAck_fits (fits : Fits state world) (block : Nat) :
    ∃ state' world', sendAck (logged vfs) block state world = (state', world', [.ack block]) ∧ Fits state' world' ∧
      (state'.finished = true → state'.fh = none) ∧ (state.fh = none → state'.fh = none) := by
  rw [sendAck]
  split
  · obtain ⟨state', world', closes, closed, fits'⟩ := closeConnection_fits vfs fits [.ack block]
    exact ⟨state', world', closes, fits', fun _ => closed, fun _ => closed⟩
  next unfinished => exact ⟨state, world, rfl, fits, fun finished => absurd finished unfinished, id⟩

variable (vfs) in
/-- Sending a block; there is one to send, or the file is closed. -/
theorem sendData_fits (fits : Fits state world) (ready : state.finished = false → state.fh ≠ none) :
    ∃ state' world' answers, sendData (logged vfs) state world = some (state', world', answers) ∧ Fits state' world' ∧
      (answers.contains .error = true ∨ answers.isEmpty = true → state'.fh = none) ∧
      (state.fh = none → state'.fh = none) := by
  rw [sendData]
  split
  · obtain ⟨state', world', closes, closed, fits'⟩ := closeConnection_fits vfs fits []
    exact ⟨state', world', _, congrArg some closes, fits', fun _ => closed, fun _ => closed⟩
  next unfinished =>
    obtain ⟨fh, opened⟩ := Option.ne_none_iff_exists'.mp (ready (Bool.eq_false_iff.mpr unfinished))
    obtain ⟨data, handle, store, read⟩ : ∃ data handle store,
        (logged vfs).vfsRead fh 512 world = (data, (fh.1, handle), store, .used fh.1 :: world.2) := ⟨_, _, _, rfl⟩
    rw [Fits, opened] at fits
    cases data with
    | none =>
        have used : Fits { state with fh := some (fh.1, handle) } (store, .used fh.1 :: world.2) := .used fits
        obtain ⟨state', world', closes, closed, fits'⟩ := closeConnection_fits vfs used [.error]
        refine ⟨state', world', [.error], ?_, fits', fun _ => closed, fun absent =>
          absurd (opened.symm.trans absent) (Option.some_ne_none _)⟩
        simp only [opened, read, errorOut, closes]
    | some data =>
        refine ⟨{ state with
            fh := some (fh.1, handle)
            finished := data.length < 512
            transfered := (state.transfered + 1) % 2 ^ 16 }, (store, .used fh.1 :: world.2),
          [.data ((state.transfered + 1) % 2 ^ 16) data], ?_, .used fits, ?_, fun absent =>
          absurd (opened.symm.trans absent) (Option.some_ne_none _)⟩
        · simp only [opened, read]
        · simp

variable (vfs) in
/-- Writing a block to the file that is open. -/
theorem write_fits {fh : Nat × Handle} (opened : state.fh = some fh) (fits : Fits state world) (data : List UInt8) :
    ∃ written handle store, (logged vfs).vfsWrite fh data world = (written, (fh.1, handle), store) ∧
      ∀ finished block, Fits ⟨some (fh.1, handle), state.download, finished, block⟩ store := by
  refine ⟨_, _, _, rfl, fun finished block => ?_⟩
  rw [Fits, opened] at fits
  exact .used fits

/-- Opening a file when none is open. -/
theorem number_fits (closed : state.fh = none) (fits : Fits state world) (result : Option Handle × Store)
    (download : Bool) :
    ∃ fh world', number world.2 result = (fh, world') ∧ Fits ⟨fh, download, false, 0⟩ world' := by
  rw [Fits, closed] at fits
  obtain ⟨_ | fh, store⟩ := result
  · exact ⟨none, _, rfl, fits⟩
  · exact ⟨some (openings world.2, fh), _, rfl, .opened fits⟩

/-- What a datagram leads to when it meets the condition. -/
structure Handled (packet : Packet) (state : State (Nat × Handle)) (result : State (Nat × Handle) ×
    (Store × List HandleCall) × List Packet) : Prop where
  fits : Fits result.1 result.2.1
  closes : ends packet result.2.2 result.1.finished = true → result.1.fh = none
  stays : packet.isRequest = false → state.fh = none → result.1.fh = none

theorem errorOut_handled {packet : Packet} {before : State (Nat × Handle)} (fits : Fits state world) :
    Handled packet before (errorOut (logged vfs) state world) := by
  obtain ⟨state', world', closes, closed, fits'⟩ := closeConnection_fits vfs fits [.error]
  rw [errorOut, closes]
  exact ⟨fits', fun _ => closed, fun _ _ => closed⟩

theorem sendAck_handled {packet : Packet} {before : State (Nat × Handle)} (fits : Fits state world) (block : Nat)
    (notAck : ∀ number, packet ≠ .ack number) (stays : before.fh = none → state.fh = none) :
    Handled packet before (sendAck (logged vfs) block state world) := by
  obtain ⟨state', world', sends, fits', finished, closed⟩ := sendAck_fits vfs fits block
  rw [sends]
  refine ⟨fits', fun ended => finished ?_, fun _ absent => closed (stays absent)⟩
  cases packet with
  | ack number => exact absurd rfl (notAck number)
  | data number data => exact ended
  | readRequest name => exact nomatch ended
  | writeRequest name => exact nomatch ended
  | error => exact nomatch ended

variable (vfs) in
/-- `tftp_handle_packet` keeps the log proper. -/
theorem handled {session : Session Store Handle} (fits : Fits session.state session.world) {packet : Packet}
    (meets : session.Meets packet) :
    ∃ result, tftpHandlePacket (logged vfs) packet session.state session.world = some result ∧
      Handled packet session.state result := by
  cases packet with
  | readRequest name =>
      obtain ⟨fh, world', opens, fits'⟩ := number_fits meets fits (vfs.vfsOpen name session.world.1) true
      have opened : (logged vfs).vfsOpen name session.world = (fh, world') := opens
      rw [tftpHandlePacket]
      simp only [opened]
      split
      · exact ⟨_, rfl, errorOut_handled fits'⟩
      next some =>
        obtain ⟨state', world', answers, sends, fits', closes, -⟩ := sendData_fits vfs fits' fun _ none => by
          rw [show fh = Option.none from none] at some
          exact some rfl
        refine ⟨_, sends, fits', fun ended => closes (Or.inl ?_), fun plain => Bool.noConfusion plain⟩
        have failed : (answers.contains .error || false) = true := ended
        rwa [Bool.or_false] at failed
  | writeRequest name =>
      obtain ⟨fh, world', opens, fits'⟩ := number_fits meets fits (vfs.vfsCreate name session.world.1) false
      have opened : (logged vfs).vfsCreate name session.world = (fh, world') := opens
      rw [tftpHandlePacket]
      simp only [opened]
      split
      · exact ⟨_, rfl, errorOut_handled fits'⟩
      next some =>
        obtain ⟨state', world', sends, fits', finished, closed⟩ := sendAck_fits vfs fits' 0
        rw [sends]
        exact ⟨_, rfl, fits', fun ended => Bool.noConfusion ended, fun plain => Bool.noConfusion plain⟩
  | ack block =>
      rw [tftpHandlePacket]
      split
      · exact ⟨_, rfl, errorOut_handled fits⟩
      split
      · exact ⟨_, rfl, errorOut_handled fits⟩
      next download inOrder =>
        have upload : session.state.download = true := by simpa using download
        obtain ⟨state', world', answers, sends, fits', closes, stays⟩ :=
          @sendData_fits Store Handle vfs { session.state with transfered := block } session.world fits
            (meets upload inOrder)
        exact ⟨_, sends, fits', fun ended => closes ((Bool.or_eq_true _ _).mp ended), fun _ => stays⟩
  | data block data =>
      rw [tftpHandlePacket]
      split
      · exact ⟨_, rfl, errorOut_handled fits⟩
      split
      · exact ⟨_, rfl, errorOut_handled fits⟩
      split
      · exact ⟨_, rfl, sendAck_handled fits block (fun _ same => Packet.noConfusion same) id⟩
      split
      · exact ⟨_, rfl, errorOut_handled fits⟩
      next upload late again early =>
        have download : session.state.download = false := by simpa using upload
        obtain ⟨fh, opened⟩ := Option.ne_none_iff_exists'.mp (meets download (by omega) (by omega))
        obtain ⟨written, handle, store, writes, fits'⟩ := write_fits vfs opened fits data
        simp only [opened, writes]
        split
        · exact ⟨_, rfl, errorOut_handled (fits' _ _)⟩
        · exact ⟨_, rfl, sendAck_handled (fits' _ _) block (fun _ same => Packet.noConfusion same)
            fun absent => absurd (opened.symm.trans absent) (Option.some_ne_none _)⟩
  | error => exact ⟨_, rfl, errorOut_handled fits⟩

/-! ## Runs -/

/-- The log is proper, and a request that is over has no file. -/
structure Session.Sound (session : Session Store Handle) : Prop where
  fits : Fits session.state session.world
  closed : session.idle = true → session.state.fh = none

theorem Session.sound_start (state : State (Nat × Handle)) (store : Store) : (Session.start state store).Sound :=
  ⟨.nil, fun _ => rfl⟩

variable {session : Session Store Handle}

theorem Session.Sound.disciplined (sound : session.Sound) : Disciplined session where
  needs := fun _ _ _ split _ needs => sound.fits.needs split needs
  single := fun _ _ split _ _ first second => sound.fits.unique split first second
  closes := fun id opened left => by
    rw [sound.fits.count_closed, if_pos]
    refine ⟨(sound.fits.numbers.1 id).mp opened, fun last => ?_⟩
    rcases left with idle | later
    · rw [sound.closed idle] at last
      exact nomatch last
    · have := sound.fits.numbers.2 id last
      omega

variable (vfs) in
theorem Session.Sound.step (sound : session.Sound) {packet : Packet} (meets : session.Meets packet) :
    ∃ next, session.step vfs packet = some next ∧ next.Sound := by
  obtain ⟨⟨state', world', answers⟩, result, handled⟩ := handled vfs sound.fits meets
  refine ⟨_, Option.map_eq_some_iff.mpr ⟨_, result, rfl⟩, handled.fits, fun idle => ?_⟩
  rcases (Bool.or_eq_true _ _).mp idle with before | ended
  · obtain ⟨noRequest, idle⟩ := (Bool.and_eq_true _ _).mp before
    exact handled.stays (by simpa using noRequest) (sound.closed idle)
  · exact handled.closes ended

theorem Session.Sound.run (sound : session.Sound) {packets : List Packet} (meet : session.AllMeet vfs packets) :
    ∃ last, session.run vfs packets = some last ∧ last.Sound := by
  induction packets generalizing session with
  | nil => exact ⟨session, rfl, sound⟩
  | cons packet rest ih =>
      obtain ⟨next, steps, sound'⟩ := sound.step vfs meet.1
      obtain ⟨last, runs, sound''⟩ := ih sound' (meet.2 next steps)
      exact ⟨last, by rw [Session.run, steps, Option.bind_some, runs], sound''⟩

end Steps

/-- In every run whose datagrams meet the condition, handles are used and closed as they should be. -/
theorem handles_disciplined {Store Handle : Type} (vfs : Vfs Store Handle) (state : State (Nat × Handle)) (store : Store)
    (packets : List Packet) (meet : (Session.start state store).AllMeet vfs packets) :
    ∃ session, (Session.start state store).run vfs packets = some session ∧ Disciplined session := by
  obtain ⟨session, runs, sound⟩ := (Session.sound_start state store).run meet
  exact ⟨session, runs, sound.disciplined⟩

/-- An upload of one byte, whose block comes twice. -/
theorem handles_disciplined_upload :
    ∃ session, (Session.start ⟨none, false, false, 0⟩ []).run memory
      [.writeRequest [102], .data 1 [7], .data 1 [7]] = some session ∧ Disciplined session := by
  refine handles_disciplined memory _ _ _ ⟨rfl, fun _ step => ?_⟩
  cases step
  refine ⟨fun _ _ _ => nofun, fun _ step => ?_⟩
  cases step
  exact ⟨fun _ late _ => absurd late (by decide), fun _ _ => trivial⟩

/-- A block that comes before any request is written to no file at all. -/
theorem block_without_handle :
    ¬∃ session, (Session.start ⟨none, false, false, 0⟩ []).run memory [.data 1 [7]] = some session ∧
      Disciplined session := by
  rintro ⟨session, runs, -⟩
  have fails : (Session.start ⟨none, false, false, 0⟩ []).run memory [.data 1 [7]] = none := rfl
  exact nomatch fails.symm.trans runs

end Ethersex.Tftp
