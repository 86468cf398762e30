import Mathlib
import Ethersex.Tftp.Download

/-!
# Uploads

A client sends a file block by block, and a block again when it likes to.  A block is written once, but
a result of zero is taken for a failure, also when there was nothing to write.
-/

namespace Ethersex.Tftp

section Serving

variable {Store Handle : Type} (vfs : Vfs Store Handle)

/-- Answers in front of the ones of a result. -/
def behind (answers : List Packet) (result : State Handle × Store × List Packet) : State Handle × Store × List Packet :=
  (result.1, result.2.1, answers ++ result.2.2)

/-- Datagrams arrive one after another; all the answers. -/
def serveAll : List Packet → State Handle → Store → Option (State Handle × Store × List Packet)
  | [], state, store => some (state, store, [])
  | packet :: rest, state, store =>
      (tftpHandlePacket vfs packet state store).bind fun (state, store, answers) =>
        (serveAll rest state store).map (behind answers)

/-! ## A client that uploads a file -/

variable (name content : List UInt8) (repeats : Nat → Nat)

/-- The first blocks, each sent again some times after it was acknowledged. -/
def blockPackets (count : Nat) : List Packet :=
  (List.range count).flatMap fun k => List.replicate (repeats (k + 1) + 1) (.data (k + 1) (block content (k + 1)))

def blockAcks (count : Nat) : List Packet :=
  (List.range count).flatMap fun k => List.replicate (repeats (k + 1) + 1) (.ack (k + 1))

/-- All the client sends: a request, and blocks up to a short one. -/
def uploadPackets : List Packet := .writeRequest name :: blockPackets content repeats (content.length / 512 + 1)

def uploadAcks : List Packet := .ack 0 :: blockAcks repeats (content.length / 512 + 1)

/-- Everything is acknowledged, and the file is what was sent. -/
def Uploaded (file : Store → List UInt8) (state : State Handle) (store : Store) : Prop :=
  ∃ state' store', serveAll vfs (uploadPackets name content repeats) state store =
      some (state', store', uploadAcks content repeats) ∧ file store' = content

/-- A backend that stores what it is given: a file is created empty, and what is written to its handle is
appended. -/
structure Stores (writes : Handle → Store → Prop) (file : Store → List UInt8) : Prop where
  create : ∀ store, ∃ fh store', vfs.vfsCreate name store = (some fh, store') ∧ writes fh store' ∧ file store' = []
  write : ∀ fh store data, writes fh store → ∃ fh' store', vfs.vfsWrite fh data store = (data.length, fh', store') ∧
    writes fh' store' ∧ file store' = file store ++ data
  close : ∀ fh store, writes fh store → file (vfs.vfsClose fh store) = file store

end Serving

section Upload

variable {Store Handle : Type} {vfs : Vfs Store Handle} {name content : List UInt8} {repeats : Nat → Nat}
  {writes : Handle → Store → Prop} {file : Store → List UInt8}

theorem serveAll_cons {packet : Packet} {state state' : State Handle} {store store' : Store} {answers : List Packet}
    (handled : tftpHandlePacket vfs packet state store = some (state', store', answers)) (rest : List Packet) :
    serveAll vfs (packet :: rest) state store = (serveAll vfs rest state' store').map (behind answers) := by
  rw [serveAll, handled, Option.bind_some]

theorem behind_comp (first later : List Packet) :
    (behind first ∘ behind later : State Handle × Store × List Packet → _) = behind (first ++ later) := by
  funext result
  rw [Function.comp_apply, behind, behind, behind, List.append_assoc]

theorem serveAll_append {packets : List Packet} {state state' : State Handle} {store store' : Store}
    {answers : List Packet} (served : serveAll vfs packets state store = some (state', store', answers))
    (more : List Packet) :
    serveAll vfs (packets ++ more) state store = (serveAll vfs more state' store').map (behind answers) := by
  induction packets generalizing state store answers with
  | nil =>
      cases served
      exact Option.map_id'.symm
  | cons packet rest ih =>
      obtain ⟨⟨middle, between, first⟩, handled, served⟩ := Option.bind_eq_some_iff.mp served
      obtain ⟨⟨last, end_, later⟩, ran, same⟩ := Option.map_eq_some_iff.mp served
      cases same
      rw [List.cons_append, serveAll_cons handled, ih ran, Option.map_map, behind_comp]

theorem blockPackets_succ (count : Nat) :
    blockPackets content repeats (count + 1) = blockPackets content repeats count ++
      .data (count + 1) (block content (count + 1)) ::
        List.replicate (repeats (count + 1)) (.data (count + 1) (block content (count + 1))) := by
  rw [blockPackets, List.range_succ, List.flatMap_append, List.flatMap_singleton, List.replicate_succ]
  rfl

theorem blockAcks_succ (count : Nat) :
    blockAcks repeats (count + 1) = blockAcks repeats count ++
      .ack (count + 1) :: List.replicate (repeats (count + 1)) (.ack (count + 1)) := by
  rw [blockAcks, List.range_succ, List.flatMap_append, List.flatMap_singleton, List.replicate_succ]
  rfl

/-- A block that was acknowledged last is acknowledged again, and nothing else happens. -/
theorem serveAll_again (number : Nat) {state : State Handle} (last : state.transfered = number)
    (upload : state.download = false) (closed : state.finished = true → state.fh = none) (store : Store)
    (data : List UInt8) (count : Nat) :
    serveAll vfs (List.replicate count (.data number data)) state store =
      some (state, store, List.replicate count (.ack number)) := by
  have again : tftpHandlePacket vfs (.data number data) state store = some (state, store, [.ack number]) := by
    rw [tftpHandlePacket, upload, if_neg Bool.false_ne_true, last, if_neg (lt_irrefl _), if_pos rfl, sendAck]
    split
    next finished => rw [closeConnection, closed finished]
    · rfl
  induction count with
  | zero => rfl
  | succ count ih =>
      rw [List.replicate_succ, serveAll_cons again, ih]
      rfl

/-- The next block is written. -/
theorem handle_next (stores : Stores vfs name writes file) (count : Nat) {fh : Handle} {store : Store}
    (open_ : writes fh store) (small : count + 1 < 2 ^ 16) (data : List UInt8) :
    ∃ fh' store', writes fh' store' ∧ file store' = file store ++ data ∧
      tftpHandlePacket vfs (.data (count + 1) data) ⟨some fh, false, false, count⟩ store =
        if data.length = 0 then some (errorOut vfs ⟨some fh', false, false, count⟩ store')
        else some (sendAck vfs (count + 1) ⟨some fh', false, data.length < 512, count + 1⟩ store') := by
  obtain ⟨fh', store', written, open', appended⟩ := stores.write fh store data open_
  refine ⟨fh', store', open', appended, ?_⟩
  rw [tftpHandlePacket, if_neg Bool.false_ne_true, if_neg (show ¬count + 1 < count by omega),
    if_neg (show ¬count + 1 = count by omega), if_neg (by rw [Nat.mod_eq_of_lt small]; exact lt_irrefl _)]
  simp only [written, Bool.false_or]

/-- The blocks in front of the last one. -/
theorem serveAll_blocks (stores : Stores vfs name writes file) (small : content.length / 512 + 1 < 65535)
    {fh : Handle} {store : Store} (open_ : writes fh store) (empty : file store = []) {count : Nat}
    (inside : count ≤ content.length / 512) :
    ∃ fh' store', serveAll vfs (blockPackets content repeats count) ⟨some fh, false, false, 0⟩ store =
        some (⟨some fh', false, false, count⟩, store', blockAcks repeats count) ∧
      writes fh' store' ∧ file store' = content.take (512 * count) := by
  induction count with
  | zero =>
      refine ⟨fh, store, rfl, open_, ?_⟩
      rw [empty, Nat.mul_zero, List.take_zero]
  | succ count ih =>
      obtain ⟨fh', store', served, open', taken⟩ := ih (Nat.le_of_succ_le inside)
      obtain ⟨fh'', store'', open'', appended, handled⟩ :=
        handle_next stores count open' (by omega) (block content (count + 1))
      have full : (block content (count + 1)).length = 512 := by
        rw [length_block]
        omega
      refine ⟨fh'', store'', ?_, open'', ?_⟩
      · have written : tftpHandlePacket vfs (.data (count + 1) (block content (count + 1)))
            ⟨some fh', false, false, count⟩ store' =
            some (⟨some fh'', false, false, count + 1⟩, store'', [.ack (count + 1)]) := by
          rw [handled, full]
          rfl
        rw [blockPackets_succ, serveAll_append served, blockAcks_succ, serveAll_cons written,
          serveAll_again (count + 1) rfl rfl (fun done => Bool.noConfusion done)]
        rfl
      · rw [appended, taken, take_append_block]

/-- An upload goes well if there is something in the last block. -/
theorem upload_stores_iff (stores : Stores vfs name writes file) (small : content.length / 512 + 1 < 65535)
    (state : State Handle) (store : Store) :
    Uploaded vfs name content repeats file state store ↔ content.length % 512 ≠ 0 := by
  obtain ⟨fh, store₀, created, open₀, empty⟩ := stores.create store
  obtain ⟨fh', store₁, served, open₁, taken⟩ := serveAll_blocks stores small open₀ empty le_rfl
  obtain ⟨fh'', store₂, open₂, appended, handled⟩ :=
    handle_next stores (content.length / 512) open₁ (by omega) (block content (content.length / 512 + 1))
  have request : tftpHandlePacket vfs (.writeRequest name) state store =
      some (⟨some fh, false, false, 0⟩, store₀, [.ack 0]) := by
    rw [tftpHandlePacket]
    simp only [created, Option.isNone_some, Bool.false_eq_true, if_false, sendAck]
  have length := @length_block content (content.length / 512 + 1)
  rw [Nat.add_sub_cancel] at length
  rw [Uploaded, uploadPackets, uploadAcks, serveAll_cons request, blockPackets_succ, blockAcks_succ,
    serveAll_append served]
  by_cases empty : (block content (content.length / 512 + 1)).length = 0
  · -- the last block is empty, and the answer to it is an error
    rw [if_pos empty, errorOut, closeConnection] at handled
    rw [serveAll_cons handled]
    refine iff_of_false ?_ (by omega)
    rintro ⟨_, _, all, -⟩
    simp only [Option.map_map, Option.map_eq_some_iff] at all
    obtain ⟨result, -, same⟩ := all
    have answers := congrArg (fun result => result.2.2) same
    simp [behind] at answers
  · rw [if_neg empty, sendAck, if_pos (decide_eq_true (by omega)), closeConnection] at handled
    rw [serveAll_cons handled, serveAll_again (content.length / 512 + 1) rfl rfl fun _ => rfl]
    refine iff_of_true ⟨_, _, rfl, ?_⟩ (by omega)
    show file (vfs.vfsClose fh'' store₂) = content
    rw [stores.close _ _ open₂, appended, taken, take_append_block]
    exact List.take_of_length_le (by omega)

end Upload

/-! ## Two uploads -/

/-- A backend with one file, whose bytes are its state. -/
def memory : Vfs (List UInt8) Unit where
  vfsOpen := fun _ store => (none, store)
  vfsCreate := fun _ _ => (some (), [])
  vfsRead := fun _ _ store => (none, (), store)
  vfsWrite := fun _ data store => (data.length, (), store ++ data)
  vfsClose := fun _ store => store

theorem memory_stores (name : List UInt8) : Stores memory name (fun _ _ => True) id where
  create := fun _ => ⟨(), [], rfl, trivial, rfl⟩
  write := fun _ _ _ _ => ⟨(), _, rfl, trivial, rfl⟩
  close := fun _ _ _ => rfl

/-- Three bytes, sent twice. -/
theorem upload_stores_three :
    Uploaded memory [102] [1, 2, 3] (fun _ => 1) id ⟨none, false, false, 0⟩ [] ↔
      ([1, 2, 3] : List UInt8).length % 512 ≠ 0 :=
  upload_stores_iff (memory_stores [102]) (by decide) _ _

/-- The last block of an empty file is answered with an error. -/
theorem upload_error : ¬Uploaded memory [102] [] (fun _ => 0) id ⟨none, false, false, 0⟩ [] := by
  rintro ⟨state, store, served, -⟩
  have answers : (serveAll memory (uploadPackets [102] [] fun _ => 0) ⟨none, false, false, 0⟩ []).map
      (fun result => result.2.2) = some [.ack 0, .error] := by
    decide
  rw [served, Option.map_some] at answers
  have same : uploadAcks [] (fun _ => 0) = [.ack 0, .error] := Option.some.inj answers
  exact absurd same (by decide)

end Ethersex.Tftp
