import Mathlib
import Ethersex.Tftp.Model

/-!
# Downloads over a network that loses, duplicates and delays datagrams

Every datagram that was ever sent may arrive, at any time and any number of times, or never.  The
server reads the file on, whichever block it is asked for; so all is well as long as every
acknowledgement it gets is for the block that it sent last.
-/

namespace Ethersex.Tftp

/-! ## A client, a server and the network -/

/-- A client that downloads a file: it asks for the file until the first block arrives, and
acknowledges blocks that have arrived. -/
structure Client where
  blocks : Nat
  data : List UInt8
  complete : Bool
  deriving DecidableEq, Repr

/-- A datagram arrives; only the block after the last one is of interest. -/
def Client.receive (client : Client) : Packet → Client
  | .data block data =>
      if client.complete = false ∧ block = client.blocks + 1 then
        ⟨block, client.data ++ data, data.length < 512⟩
      else client
  | _ => client

/-- Both parties, and all the datagrams that have been sent. -/
structure World (Store Handle : Type) where
  server : State Handle
  store : Store
  client : Client
  toServer : List Packet
  toClient : List Packet

/-- The client sends a request or an acknowledgement, or a datagram arrives. -/
inductive Action where
  | request
  | acknowledge (block : Nat)
  | serve (packet : Packet)
  | receive (packet : Packet)

section Network

variable {Store Handle : Type} (vfs : Vfs Store Handle) (name content : List UInt8)

/-- Nothing has been sent yet, whatever the server did before. -/
def World.start (server : State Handle) (store : Store) : World Store Handle :=
  ⟨server, store, ⟨0, [], false⟩, [], []⟩

/-- What an action leads to: nothing is done that the client would not do, and nothing arrives
that was not sent. -/
def World.step (world : World Store Handle) : Action → Option (World Store Handle)
  | .request =>
      if world.client.blocks = 0 then
        some { world with toServer := .readRequest name :: world.toServer }
      else some world
  | .acknowledge block =>
      if 1 ≤ block ∧ block ≤ world.client.blocks then
        some { world with toServer := .ack block :: world.toServer }
      else some world
  | .serve packet =>
      if packet ∈ world.toServer then
        (tftpHandlePacket vfs packet world.server world.store).map fun (server, store, answers) =>
          { world with server, store, toClient := answers ++ world.toClient }
      else some world
  | .receive packet =>
      if packet ∈ world.toClient then some { world with client := world.client.receive packet }
      else some world

def World.run : List Action → World Store Handle → Option (World Store Handle)
  | [], world => some world
  | action :: rest, world => (world.step vfs name action).bind (run rest)

/-- The bytes of a block, the first of which has number one. -/
def block (number : Nat) : List UInt8 := (content.drop (512 * (number - 1))).take 512

/-- The server does not answer with an error, all blocks it sends carry the bytes they should,
and what the client has assembled when a short block has arrived is the file. -/
structure Faithful (world : World Store Handle) : Prop where
  quiet : Packet.error ∉ world.toClient
  carries : ∀ number data, .data number data ∈ world.toClient → 1 ≤ number ∧ data = block content number
  assembled : world.client.complete = true → world.client.data = content

/-! ## Steps that go well -/

variable (at_ : Handle → Nat → Store → Prop)

/-- Reading an open file from a position gets what is there, and moves on. -/
def Delivers (fh : Handle) (position : Nat) (store : Store) : Prop :=
  ∃ fh' store', vfs.vfsRead fh 512 store = (some ((content.drop position).take 512), fh', store') ∧
    at_ fh' (position + ((content.drop position).take 512).length) store'

/-- A request for a file finds it; an acknowledgement is for the block that the server sent last;
and reading works, from the position where the open file is (`at_`). -/
def World.Meets (world : World Store Handle) : Action → Prop
  | .serve (.readRequest name) =>
      ∃ fh store, vfs.vfsOpen name world.store = (some fh, store) ∧ at_ fh 0 store ∧
        Delivers vfs content at_ fh 0 store
  | .serve (.ack number) =>
      number = world.server.transfered ∧
        ∀ fh position, world.server.finished = false → world.server.fh = some fh →
          at_ fh position world.store → position ≤ content.length →
            Delivers vfs content at_ fh position world.store
  | _ => True

/-- All steps of a run meet the condition. -/
def World.AllMeet : List Action → World Store Handle → Prop
  | [], _ => True
  | action :: rest, world =>
      world.Meets vfs content at_ action ∧ ∀ next, world.step vfs name action = some next → AllMeet rest next

end Network

/-! ## Blocks of a file -/

section Blocks

variable {content : List UInt8} {number : Nat}

theorem length_block : (block content number).length = min 512 (content.length - 512 * (number - 1)) := by
  rw [block, List.length_take, List.length_drop]

/-- Only the last block is short. -/
theorem block_short (positive : 1 ≤ number) (inside : number ≤ content.length / 512 + 1) :
    (block content number).length < 512 ↔ number = content.length / 512 + 1 := by
  rw [length_block]
  omega

theorem take_append_block :
    content.take (512 * number) ++ block content (number + 1) = content.take (512 * (number + 1)) := by
  rw [block, Nat.add_sub_cancel, ← List.take_add, Nat.mul_succ]

end Blocks

/-! ## What holds in every run -/

section Runs

variable {Store Handle : Type} {vfs : Vfs Store Handle} {name content : List UInt8}
  {at_ : Handle → Nat → Store → Prop} {world : World Store Handle}

/-- The server while it sends the file. -/
structure Serving (content : List UInt8) (at_ : Handle → Nat → Store → Prop) (server : State Handle)
    (store : Store) : Prop where
  download : server.download = true
  positive : 1 ≤ server.transfered
  inside : server.transfered ≤ content.length / 512 + 1
  finished : server.finished = decide (server.transfered = content.length / 512 + 1)
  opened : server.finished = false → ∃ fh, server.fh = some fh ∧ at_ fh (512 * server.transfered) store

/-- The client, the server and what is on its way. -/
structure Sound (name content : List UInt8) (at_ : Handle → Nat → Store → Prop)
    (world : World Store Handle) : Prop where
  requests : ∀ packet ∈ world.toServer, packet = .readRequest name ∨
    ∃ number, packet = .ack number ∧ 1 ≤ number ∧ number ≤ world.client.blocks
  answers : ∀ packet ∈ world.toClient, ∃ number, packet = .data number (block content number) ∧ 1 ≤ number
  serving : world.toClient ≠ [] → Serving content at_ world.server world.store
  answered : 1 ≤ world.client.blocks → world.toClient ≠ []
  taken : world.client.data = content.take (512 * world.client.blocks)
  assembled : world.client.complete = true → world.client.data = content

theorem Sound.faithful (sound : Sound name content at_ world) : Faithful content world where
  quiet := fun member => by
    obtain ⟨number, data, _⟩ := sound.answers _ member
    exact nomatch data
  carries := fun number data member => by
    obtain ⟨other, same, positive⟩ := sound.answers _ member
    cases same
    exact ⟨positive, rfl⟩
  assembled := sound.assembled

theorem sound_start (server : State Handle) (store : Store) :
    Sound name content at_ (World.start server store) where
  requests := nofun
  answers := nofun
  serving := fun some => absurd rfl some
  answered := fun positive => absurd positive (by decide : ¬1 ≤ 0)
  taken := by
    rw [World.start, Nat.mul_zero, List.take_zero]
  assembled := nofun

/-! ### The client -/

theorem Sound.request (sound : Sound name content at_ world) :
    ∃ next, world.step vfs name .request = some next ∧ Sound name content at_ next := by
  rw [World.step]
  split
  · refine ⟨_, rfl, { sound with requests := ?_ }⟩
    exact List.forall_mem_cons.mpr ⟨.inl rfl, sound.requests⟩
  · exact ⟨_, rfl, sound⟩

theorem Sound.acknowledge (sound : Sound name content at_ world) (number : Nat) :
    ∃ next, world.step vfs name (.acknowledge number) = some next ∧ Sound name content at_ next := by
  rw [World.step]
  split
  next received =>
    refine ⟨_, rfl, { sound with requests := ?_ }⟩
    exact List.forall_mem_cons.mpr ⟨.inr ⟨number, rfl, received⟩, sound.requests⟩
  · exact ⟨_, rfl, sound⟩

theorem Sound.receive (sound : Sound name content at_ world) (packet : Packet) :
    ∃ next, world.step vfs name (.receive packet) = some next ∧ Sound name content at_ next := by
  rw [World.step]
  split
  next member =>
    refine ⟨_, rfl, ?_⟩
    obtain ⟨number, rfl, positive⟩ := sound.answers packet member
    rw [Client.receive]
    split
    next expected =>
      obtain ⟨-, rfl⟩ := expected
      have taken : world.client.data ++ block content (world.client.blocks + 1) =
          content.take (512 * (world.client.blocks + 1)) := by
        rw [sound.taken, take_append_block]
      refine ⟨fun packet sent => ?_, sound.answers, sound.serving, fun _ => List.ne_nil_of_mem member, taken, ?_⟩
      · refine (sound.requests packet sent).imp_right ?_
        rintro ⟨number, rfl, received⟩
        exact ⟨number, rfl, received.1, Nat.le_succ_of_le received.2⟩
      · intro complete
        have short : (block content (world.client.blocks + 1)).length < 512 := of_decide_eq_true complete
        rw [length_block] at short
        exact taken.trans (List.take_of_length_le (by omega))
    · exact sound
  · exact ⟨_, rfl, sound⟩

/-! ### The server -/

/-- The next block is sent. -/
theorem sendData_eq {server : State Handle} {store : Store} {fh : Handle}
    (small : content.length / 512 + 1 < 65535) (download : server.download = true)
    (unfinished : server.finished = false) (opened : server.fh = some fh)
    (inside : server.transfered ≤ content.length / 512)
    (delivers : Delivers vfs content at_ fh (512 * server.transfered) store) :
    ∃ server' store', sendData vfs server store =
        some (server', store', [.data (server.transfered + 1) (block content (server.transfered + 1))]) ∧
      Serving content at_ server' store' := by
  obtain ⟨fh', store', reads, moved⟩ := delivers
  have number : (server.transfered + 1) % 2 ^ 16 = server.transfered + 1 := Nat.mod_eq_of_lt (by omega)
  have carried : block content (server.transfered + 1) = (content.drop (512 * server.transfered)).take 512 := by
    rw [block, Nat.add_sub_cancel]
  rw [sendData, unfinished, if_neg Bool.false_ne_true]
  simp only [opened, reads, number, ← carried]
  refine ⟨_, _, rfl, download, Nat.le_add_left 1 _, Nat.succ_le_succ inside, ?_, fun more => ⟨fh', rfl, ?_⟩⟩
  · exact decide_eq_decide.mpr (block_short (Nat.le_add_left 1 _) (Nat.succ_le_succ inside))
  · have full : ¬(block content (server.transfered + 1)).length < 512 := of_decide_eq_false more
    rw [length_block, Nat.add_sub_cancel] at full
    rw [← carried, length_block, Nat.add_sub_cancel] at moved
    rwa [show 512 * (server.transfered + 1) =
      512 * server.transfered + min 512 (content.length - 512 * server.transfered) by omega]

/-- An answer that is a block is sent. -/
theorem Sound.answer (sound : Sound name content at_ world) {server : State Handle} {store : Store}
    {number : Nat} (positive : 1 ≤ number) (serving : Serving content at_ server store) :
    Sound name content at_
      { world with
        server := server
        store := store
        toClient := .data number (block content number) :: world.toClient } where
  requests := sound.requests
  answers := List.forall_mem_cons.mpr ⟨⟨number, rfl, positive⟩, sound.answers⟩
  serving := fun _ => serving
  answered := fun _ => List.cons_ne_nil _ _
  taken := sound.taken
  assembled := sound.assembled

theorem Sound.serve (sound : Sound name content at_ world) (small : content.length / 512 + 1 < 65535)
    (packet : Packet) (meets : world.Meets vfs content at_ (.serve packet)) :
    ∃ next, world.step vfs name (.serve packet) = some next ∧ Sound name content at_ next := by
  rw [World.step]
  split
  next member =>
    rcases sound.requests packet member with rfl | ⟨number, rfl, received⟩
    · obtain ⟨fh, store, found, -, delivers⟩ := meets
      obtain ⟨server', store', sent, serving⟩ := @sendData_eq Store Handle vfs content at_
        ⟨some fh, true, false, 0⟩ store fh small rfl rfl rfl (Nat.zero_le _) delivers
      rw [tftpHandlePacket]
      simp only [found, Option.isNone_some, Bool.false_eq_true, if_false, sent, Option.map_some]
      exact ⟨_, rfl, sound.answer le_rfl serving⟩
    · obtain ⟨last, delivers⟩ := meets
      have serving := sound.serving (sound.answered (received.1.trans received.2))
      have inOrder : ¬(number < world.server.transfered ∨ (world.server.transfered + 1) % 2 ^ 16 < number) := by
        have inside := serving.inside
        rw [last, Nat.mod_eq_of_lt (by omega)]
        omega
      have handled : tftpHandlePacket vfs (.ack number) world.server world.store =
          sendData vfs world.server world.store := by
        rw [tftpHandlePacket, if_neg (by rw [serving.download]; decide), if_neg inOrder, last]
      rw [handled]
      cases finished : world.server.finished with
      | true =>
          -- the last block was acknowledged
          rw [sendData, finished, if_pos rfl, closeConnection]
          have stays : ∀ server store, server.transfered = world.server.transfered →
              server.download = world.server.download → server.finished = world.server.finished →
              Serving content at_ server store := fun server store transfered download finishes =>
            ⟨download.trans serving.download, transfered ▸ serving.positive, transfered ▸ serving.inside,
              by rw [finishes, transfered, serving.finished],
              fun open_ => nomatch open_.symm.trans (finishes.trans finished)⟩
          cases opened : world.server.fh with
          | none => exact ⟨_, rfl, { sound with serving := fun _ => stays _ _ rfl rfl rfl }⟩
          | some fh => exact ⟨_, rfl, { sound with serving := fun _ => stays _ _ rfl rfl rfl }⟩
      | false =>
          obtain ⟨fh, opened, position⟩ := serving.opened finished
          have more : world.server.transfered ≠ content.length / 512 + 1 :=
            of_decide_eq_false (serving.finished ▸ finished)
          have inside := serving.inside
          obtain ⟨server', store', sent, serving'⟩ := @sendData_eq Store Handle vfs content at_ world.server
            world.store fh small serving.download finished opened (by omega)
            (delivers fh _ finished opened position (by omega))
          rw [sent]
          exact ⟨_, rfl, sound.answer (Nat.le_add_left 1 _) serving'⟩
  · exact ⟨_, rfl, sound⟩

theorem Sound.step (sound : Sound name content at_ world) (small : content.length / 512 + 1 < 65535)
    {action : Action} (meets : world.Meets vfs content at_ action) :
    ∃ next, world.step vfs name action = some next ∧ Sound name content at_ next := by
  cases action with
  | request => exact sound.request
  | acknowledge number => exact sound.acknowledge number
  | serve packet => exact sound.serve small packet meets
  | receive packet => exact sound.receive packet

theorem Sound.run (sound : Sound name content at_ world) (small : content.length / 512 + 1 < 65535)
    {actions : List Action} (meet : world.AllMeet vfs name content at_ actions) :
    ∃ last, world.run vfs name actions = some last ∧ Sound name content at_ last := by
  induction actions generalizing world with
  | nil => exact ⟨world, rfl, sound⟩
  | cons action rest ih =>
      obtain ⟨next, steps, sound'⟩ := sound.step small meet.1
      obtain ⟨last, runs, sound''⟩ := ih sound' (meet.2 next steps)
      refine ⟨last, ?_, sound''⟩
      rw [World.run, steps, Option.bind_some, runs]

end Runs

/-- In every run whose steps meet the condition, the server sends the blocks of the file and no
error, and what the client has assembled in the end is the file. -/
theorem download_faithful {Store Handle : Type} (vfs : Vfs Store Handle) (name content : List UInt8)
    (at_ : Handle → Nat → Store → Prop) (small : content.length / 512 + 1 < 65535)
    (server : State Handle) (store : Store) (actions : List Action)
    (meet : (World.start server store).AllMeet vfs name content at_ actions) :
    ∃ world, (World.start server store).run vfs name actions = some world ∧ Faithful content world := by
  obtain ⟨world, runs, sound⟩ := (sound_start server store).run small meet
  exact ⟨world, runs, sound.faithful⟩

/-! ## Two runs -/

/-- A virtual file system with one file, which is there under any name. -/
def oneFile (content : List UInt8) : Vfs Unit Nat where
  vfsOpen := fun _ store => (some 0, store)
  vfsCreate := fun _ store => (none, store)
  vfsRead := fun position length store =>
    let data := (content.drop position).take length
    (some data, position + data.length, store)
  vfsWrite := fun position _ store => (0, position, store)
  vfsClose := fun _ store => store

theorem oneFile_delivers (content : List UInt8) (position : Nat) :
    Delivers (oneFile content) content (fun fh position _ => fh = position) position position () :=
  ⟨_, _, rfl, rfl⟩

/-- A file of three bytes, the request and the acknowledgement for which arrive twice. -/
theorem download_faithful_three :
    ∃ world, (World.start (⟨none, false, false, 0⟩ : State Nat) ()).run (oneFile [1, 2, 3]) [102]
      [.request, .serve (.readRequest [102]), .serve (.readRequest [102]), .receive (.data 1 [1, 2, 3]),
        .acknowledge 1, .serve (.ack 1), .serve (.ack 1)] = some world ∧ Faithful [1, 2, 3] world := by
  refine download_faithful (oneFile [1, 2, 3]) [102] [1, 2, 3] (fun fh position _ => fh = position)
    (by decide) _ _ _ ⟨trivial, fun _ step => ?_⟩
  cases step
  refine ⟨⟨_, _, rfl, rfl, oneFile_delivers _ 0⟩, fun _ step => ?_⟩
  cases step
  refine ⟨⟨_, _, rfl, rfl, oneFile_delivers _ 0⟩, fun _ step => ?_⟩
  cases step
  refine ⟨trivial, fun _ step => ?_⟩
  cases step
  refine ⟨trivial, fun _ step => ?_⟩
  cases step
  refine ⟨⟨rfl, nofun⟩, fun _ step => ?_⟩
  cases step
  refine ⟨⟨rfl, nofun⟩, fun _ step => ?_⟩
  cases step
  trivial

/-- The second block of a file of 513 bytes is lost; the client acknowledges the first block
again, and gets an error. -/
theorem download_error :
    ∃ world, (World.start (⟨none, false, false, 0⟩ : State Nat) ()).run (oneFile (List.replicate 513 7)) [102]
      [.request, .serve (.readRequest [102]), .receive (.data 1 (List.replicate 512 7)),
        .acknowledge 1, .serve (.ack 1), .acknowledge 1, .serve (.ack 1)] = some world ∧
      ¬Faithful (List.replicate 513 7) world := by
  have errs : ((World.start (⟨none, false, false, 0⟩ : State Nat) ()).run (oneFile (List.replicate 513 7)) [102]
      [.request, .serve (.readRequest [102]), .receive (.data 1 (List.replicate 512 7)),
        .acknowledge 1, .serve (.ack 1), .acknowledge 1, .serve (.ack 1)]).map
          (fun world => decide (Packet.error ∈ world.toClient)) = some true := by
    decide +kernel
  obtain ⟨world, runs, member⟩ := Option.map_eq_some_iff.mp errs
  exact ⟨world, runs, fun faithful => faithful.quiet (of_decide_eq_true member)⟩

end Ethersex.Tftp
