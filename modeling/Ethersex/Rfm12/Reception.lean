import Ethersex.Rfm12.Model
import Ethersex.Library.Walks

/-!
# What happens to received frames

Every frame has the length that its header announces, and is handed to the stack, forwarded or
dropped.  That holds as long as a station that forwards gets no frame with a route through another
one, and none that is shorter than its route header.
-/

namespace Ethersex.Rfm12

open Ethersex.Library

variable (c : Config)

/-! ## The property -/

/-- The driver together with what happened: the frame that is being received, those that the main
loop found, those that it handed to the stack, each with its length, and those that it forwarded. -/
structure System where
  state : State
  current : List UInt8
  frames : List (List UInt8)
  handed : List (Nat × List UInt8)
  forwarded : List (List UInt8)
  /-- Whether the stack or another driver has the buffer. -/
  held : Bool
  /-- Whether the stack was handed a frame and did not start the receiver again. -/
  given : Bool

/-- The first bytes of a buffer. -/
def bytes (count : Nat) (buf : Bytes) : List UInt8 := (List.range count).map buf

/-- The length that `rfm12_rxfinish` returns. -/
def returned (s : State) : Nat := ((rxfinish c s).map Prod.fst).getD 0

/-- What happened, after an event that leads to `after`. -/
def System.next (system : System) (after : State) : Event → System
  | .interrupt byte =>
      { system with
        state := after
        current :=
          if system.state.rfm12_status ≠ .RX then system.current
          else if takes c byte system.state then system.current ++ [byte] else [] }
  | .rxfinish =>
      if system.state.txstart.isSome ∨ system.state.rfm12_status ≠ .NEW then { system with state := after }
      else
        let len := returned c system.state
        { state := after
          current := []
          frames := system.frames ++ [system.current]
          handed := system.handed ++ if len = 0 then [] else [(len, bytes (len + 2) after.rfm12_buf)]
          forwarded := system.forwarded ++
            if after.rfm12_status = .TX then [bytes (after.rfm12_txlen + 2) after.rfm12_buf] else []
          held := system.held || len ≠ 0
          given := system.given || len ≠ 0 }
  | .rxstart =>
      { system with state := after, given := system.given && system.state.txstart.isSome }
  | .proceed =>
      if system.state.txstart.isSome then
        { system with state := after, current := [], held := false, given := false }
      else { system with state := after }
  | .lock => { system with state := after, held := system.held || system.state.uip_buf_lock = 0 }
  | .unlock => { system with state := after, held := false }
  | .txstart _ _ => { system with state := after }

/-- A step; who does not have the buffer does not give it back. -/
def step (system : Option System) (event : Event) : Option System :=
  system.bind fun system =>
    match event with
    | .unlock => if system.held then some (system.next c (uipBufUnlock system.state) .unlock) else system
    | event => (Rfm12.next c system.state event).map (system.next c · event)

/-- After reset. -/
def initial (buf : Bytes) : System := ⟨start buf, [], [], [], [], false, false⟩

/-- What the stack gets of a frame. -/
def deliver (frame : List UInt8) : Option (Nat × List UInt8) :=
  if routed (ofList frame) = true ∨ announced c (ofList frame) = 0 then none
  else some (announced c (ofList frame), frame)

/-- What is forwarded of a frame. -/
def forward (frame : List UInt8) : Option (List UInt8) :=
  if routed (ofList frame) = true ∧ c.CONF_RFM12_STATID = some (ofList frame 2) then some (frame.drop 3)
  else none

/-- The radio receives a frame, has a new one, or transmits. -/
def Busy (s : State) : Prop :=
  s.rfm12_status = .NEW ∨ s.rfm12_status.txActive = true ∨ s.rfm12_status = .RX ∧ s.rfm12_index ≠ 0

instance (s : State) : Decidable (Busy s) := inferInstanceAs (Decidable (_ ∨ _))

/-- The receiver waits for a frame and takes its first byte. -/
def Ready (s : State) : Prop := s.rfm12_status = .RX ∧ s.rfm12_index = 0 ∧ s.uip_buf_lock = 0

/-- Every frame has the length that its header announces (one that announces nothing takes one byte
more), and goes where it belongs once. -/
structure Logged (frames : List (List UInt8)) (handed : List (Nat × List UInt8))
    (forwarded : List (List UInt8)) : Prop where
  lengths : ∀ frame ∈ frames, frame.length = max 3 (announced c (ofList frame) + 2)
  handed : handed = frames.filterMap (deliver c)
  forwarded : forwarded = frames.filterMap (forward c)

structure Receives (system : System) : Prop where
  inside : system.state.rfm12_status = .RX → system.state.rfm12_index ≤ c.RFM12_BUFFER_LEN
  logged : Logged c system.frames system.handed system.forwarded
  ready : system.held = false → system.given = false → Busy system.state ∨ Ready system.state

/-! ## The condition -/

/-- A station that forwards finds frames with a route only if they are for it, and as long as a route
header at least. -/
def Sound (system : System) : Event → Prop
  | .rxfinish =>
      system.state.txstart = none → system.state.rfm12_status = .NEW →
        routed system.state.rfm12_buf = true → ∀ id ∈ c.CONF_RFM12_STATID,
          system.state.rfm12_buf 2 = id ∧ 3 ≤ announced c system.state.rfm12_buf
  | _ => True

instance (system : System) (event : Event) : Decidable (Sound c system event) := by
  cases event <;> unfold Sound <;> infer_instance

/-! ## The invariant -/

/-- The buffer holds the bytes of a frame. -/
structure Stored (s : State) (current : List UInt8) : Prop where
  inside : s.rfm12_index ≤ c.RFM12_BUFFER_LEN
  index : s.rfm12_index = current.length
  agree : AgreeTo s.rfm12_index s.rfm12_buf (ofList current)

structure Inv (system : System) : Prop where
  receiving : system.state.rfm12_status = .RX →
    Stored c system.state system.current ∧ ¬Complete c system.state
  complete : system.state.rfm12_status = .NEW → Stored c system.state system.current ∧
    system.state.rfm12_index = max 3 (announced c system.state.rfm12_buf + 2)
  /-- The lock is taken by the radio or by somebody else, not by both. -/
  busy : Busy system.state → system.state.uip_buf_lock ≠ 0 ∧ system.held = false
  idle : ¬Busy system.state → (system.state.uip_buf_lock ≠ 0 ↔ system.held = true)
  off : system.state.rfm12_status = .OFF → system.given = true
  between : system.state.rfm12_status ≠ .RX → system.state.rfm12_status ≠ .NEW → system.current = []
  logged : Logged c system.frames system.handed system.forwarded

variable {c} {system : System} {s after : State}

/-- The receiver waits for a frame. -/
theorem Inv.ofWaiting (status : system.state.rfm12_status = .RX) (index : system.state.rfm12_index = 0)
    (none : system.current = []) (lock : system.state.uip_buf_lock ≠ 0 ↔ system.held = true)
    (logged : Logged c system.frames system.handed system.forwarded) : Inv c system where
  receiving _ := by
    refine ⟨⟨index.trans_le (Nat.zero_le _), by rw [index, none]; rfl, fun k small => ?_⟩, fun complete => ?_⟩
    · exact absurd small (by omega)
    · have := complete.1
      omega
  complete new := by
    rw [status] at new
    cases new
  busy busy := by
    rcases busy with new | active | receiving
    · rw [status] at new
      cases new
    · rw [status] at active
      cases active
    · exact absurd index receiving.2
  idle _ := lock
  off off := by
    rw [status] at off
    cases off
  between other := absurd status other
  logged

theorem Inv.ofReady (ready : Ready system.state) (none : system.current = [])
    (free : system.held = false) (logged : Logged c system.frames system.handed system.forwarded) :
    Inv c system :=
  .ofWaiting ready.1 ready.2.1 none (by simp [ready.2.2, free]) logged

theorem Inv.ofActive (active : system.state.rfm12_status.txActive = true)
    (locked : system.state.uip_buf_lock ≠ 0) (free : system.held = false) (none : system.current = [])
    (logged : Logged c system.frames system.handed system.forwarded) : Inv c system where
  receiving receiving := by
    rw [receiving] at active
    cases active
  complete new := by
    rw [new] at active
    cases active
  busy _ := ⟨locked, free⟩
  idle still := absurd (.inr (.inl active)) still
  off off := by
    rw [off] at active
    cases active
  between _ _ := none
  logged

theorem inv_initial (buf : Bytes) : Inv c (initial buf) :=
  .ofReady ⟨rfl, rfl, rfl⟩ rfl rfl ⟨fun _ none => absurd none List.not_mem_nil, rfl, rfl⟩

/-! ## The interrupt -/

theorem txActive_next {status : Status} (active : status.txActive = true) :
    (status.next c).txActive = true := by
  cases status
  case TX_PREFIX_2 =>
    rw [Status.next]
    split <;> rfl
  all_goals first | rfl | cases active

/-- The announced length only depends on the header. -/
theorem announced_congr {left right : Bytes} (agree : AgreeTo 2 left right) :
    announced c left = announced c right := by
  rw [announced, announced, agree 0 (by decide), agree 1 (by decide)]

theorem Stored.push (stored : Stored c s system.current) (room : s.rfm12_index < c.RFM12_BUFFER_LEN)
    (byte : UInt8) (lock : Nat) (status : Status) :
    Stored c { s with
        rfm12_status := status
        uip_buf_lock := lock
        rfm12_buf := Function.update s.rfm12_buf s.rfm12_index byte
        rfm12_index := s.rfm12_index + 1 } (system.current ++ [byte]) where
  inside := room
  index := by
    rw [List.length_append, List.length_singleton, ← stored.index]
  agree k small := by
    have small : k < s.rfm12_index + 1 := small
    show Function.update s.rfm12_buf s.rfm12_index byte k = (system.current ++ [byte]).getD k 0
    by_cases last : k = s.rfm12_index
    · rw [last, Function.update_self, stored.index, List.getD_append_right _ _ _ _ le_rfl, Nat.sub_self]
      rfl
    · rw [Function.update_of_ne last, List.getD_append _ _ _ _ (by rw [← stored.index]; omega)]
      exact stored.agree k (by omega)

/-- A frame is complete with the byte that its header announces as the last one. -/
theorem complete_push (byte : UInt8) (lock : Nat) (opened : ¬Complete c s)
    (ended : Complete c { s with
      uip_buf_lock := lock
      rfm12_buf := Function.update s.rfm12_buf s.rfm12_index byte
      rfm12_index := s.rfm12_index + 1 }) :
    s.rfm12_index + 1 =
      max 3 (announced c (Function.update s.rfm12_buf s.rfm12_index byte) + 2) := by
  obtain ⟨some, last⟩ := ended
  simp only at some last
  by_cases header : s.rfm12_index = 2
  · omega
  · have same : announced c (Function.update s.rfm12_buf s.rfm12_index byte) = announced c s.rfm12_buf :=
      announced_congr fun k small => Function.update_of_ne (by omega) ..
    rw [Complete] at opened
    omega

theorem Inv.takes (inv : Inv c system) (status : system.state.rfm12_status = .RX) {byte : UInt8}
    (taken : takes c byte system.state = true) :
    ∃ after, receive c byte system.state = some after ∧ after.rfm12_status.txActive = false ∧
      Inv c { system with state := after, current := system.current ++ [byte] } := by
  obtain ⟨stored, opened⟩ := inv.receiving status
  have room : system.state.rfm12_index < c.RFM12_BUFFER_LEN := by
    by_cases first : system.state.rfm12_index = 0
    · rw [first]
      exact c.positive
    · simpa [Rfm12.takes, first] using taken
  have free : system.held = false := by
    by_cases first : system.state.rfm12_index = 0
    · have still : ¬Busy system.state := by
        simp [Busy, status, first, Status.txActive]
      have unlocked : system.state.uip_buf_lock = 0 := by
        simp only [Rfm12.takes, first, ne_eq, not_true_eq_false, if_false, decide_eq_true_eq] at taken
        exact taken.1
      by_contra other
      exact (inv.idle still).mpr (Bool.not_eq_false _ ▸ other) unlocked
    · exact (inv.busy (.inr (.inr ⟨status, first⟩))).2
  rw [receive, if_pos taken, if_pos room]
  dsimp only
  by_cases ended : Complete c { system.state with
      uip_buf_lock := 8
      rfm12_buf := Function.update system.state.rfm12_buf system.state.rfm12_index byte
      rfm12_index := system.state.rfm12_index + 1 }
  · rw [if_pos ended]
    exact ⟨_, rfl, rfl, {
      receiving := fun receiving => by cases receiving
      complete := fun _ => ⟨stored.push room byte 8 .NEW, complete_push byte 8 opened ended⟩
      busy := fun _ => ⟨by show 8 ≠ 0; decide, free⟩
      idle := fun still => absurd (.inl rfl) still
      off := fun off => by cases off
      between := fun _ other => absurd rfl other
      logged := inv.logged }⟩
  · rw [if_neg ended]
    refine ⟨_, rfl, by simp only [status]; rfl, ?_⟩
    exact {
      receiving := fun _ => ⟨stored.push room byte 8 system.state.rfm12_status, ended⟩
      complete := fun new => by
        rw [show system.state.rfm12_status = .NEW from new] at status
        cases status
      busy := fun _ => ⟨by show 8 ≠ 0; decide, free⟩
      idle := fun still => absurd (.inr (.inr ⟨status, Nat.succ_ne_zero _⟩)) still
      off := fun off => by
        rw [show system.state.rfm12_status = .OFF from off] at status
        cases status
      between := fun other => absurd status other
      logged := inv.logged }

/-- A byte that is not taken ends the frame, and the receiver waits for the next one. -/
theorem Inv.refuses (inv : Inv c system) (status : system.state.rfm12_status = .RX) {byte : UInt8}
    (refused : Rfm12.takes c byte system.state = false) :
    ∃ after, receive c byte system.state = some after ∧ after.rfm12_status.txActive = false ∧
      Inv c { system with state := after, current := [] } := by
  rw [receive, if_neg (by simp [refused])]
  by_cases first : system.state.rfm12_index = 0
  · have still : ¬Busy system.state := by
      simp [Busy, status, first, Status.txActive]
    rw [if_neg (not_not_intro first)]
    exact ⟨_, rfl, rfl, .ofWaiting rfl rfl rfl (inv.idle still) inv.logged⟩
  · have free := (inv.busy (.inr (.inr ⟨status, first⟩))).2
    rw [if_pos first, uipBufUnlock, if_neg (by simp [status, Status.txActive])]
    exact ⟨_, rfl, rfl, .ofReady ⟨rfl, rfl, rfl⟩ rfl free inv.logged⟩

/-- A transmission goes on until its end. -/
theorem switch_of_active (active : s.rfm12_status.txActive = true) (more : s.rfm12_status ≠ .TX_END)
    (byte : UInt8) : ∃ after, switch c byte s = some after ∧ after.rfm12_status.txActive = true := by
  rw [switch]
  cases status : s.rfm12_status <;> rw [status] at active more
  case OFF | RX | NEW => cases active
  case TX_END => exact absurd rfl more
  case TX_DATA =>
    refine ⟨_, rfl, ?_⟩
    dsimp only
    split <;> rfl
  all_goals
    refine ⟨_, rfl, ?_⟩
    rw [send, status]
    exact txActive_next (c := c) active

theorem Inv.interrupt (inv : Inv c system) (byte : UInt8) :
    ∃ after, Rfm12.interrupt c byte system.state = some after ∧
      Inv c (system.next c after (.interrupt byte)) := by
  simp only [Rfm12.interrupt, System.next]
  by_cases receiving : system.state.rfm12_status = .RX
  · simp only [switch, receiving]
    by_cases taken : Rfm12.takes c byte system.state = true
    · obtain ⟨after, received, passive, inv⟩ := inv.takes receiving taken
      rw [received]
      refine ⟨_, rfl, ?_⟩
      simp only [passive, taken]
      exact inv
    · obtain ⟨after, received, passive, inv⟩ := inv.refuses receiving (Bool.not_eq_true _ ▸ taken)
      rw [received]
      refine ⟨_, rfl, ?_⟩
      simp only [passive, taken]
      exact inv
  rw [if_pos receiving]
  by_cases active : system.state.rfm12_status.txActive = true
  · have free := (inv.busy (.inr (.inl active))).2
    have none := inv.between receiving fun new => by
      rw [new] at active
      cases active
    by_cases ends : system.state.rfm12_status = .TX_END
    · simp only [switch, ends]
      exact ⟨_, rfl, .ofReady ⟨rfl, rfl, rfl⟩ none free inv.logged⟩
    · obtain ⟨after, switched, still⟩ := switch_of_active (c := c) active ends byte
      rw [switched]
      refine ⟨_, rfl, ?_⟩
      simp only [still, if_true]
      exact .ofActive still (by show 8 ≠ 0; decide) free none inv.logged
  · have still : switch c byte system.state = some system.state := by
      rw [switch]
      cases status : system.state.rfm12_status <;> rw [status] at active receiving
      case RX => exact absurd rfl receiving
      all_goals exact absurd rfl active
    rw [still]
    refine ⟨_, rfl, ?_⟩
    simp only [active]
    exact inv

/-! ## The main loop -/

/-- What is known of a complete frame. -/
structure Found (c : Config) (s : State) (frame : List UInt8) : Prop extends Stored c s frame where
  complete : s.rfm12_index = max 3 (announced c s.rfm12_buf + 2)

variable {frame : List UInt8}

theorem announced_lt (buf : Bytes) : announced c buf < c.indices ∧ announced c buf < 65536 := by
  have low := (buf 1).toNat_lt
  have high : (buf 0 &&& 0x7f).toNat ≤ 127 := by
    rw [UInt8.toNat_and]
    exact Nat.and_le_right
  rw [announced, Config.indices]
  split <;> omega

theorem Found.header (found : Found c s frame) :
    announced c s.rfm12_buf = announced c (ofList frame) ∧
      routed s.rfm12_buf = routed (ofList frame) ∧ s.rfm12_buf 2 = ofList frame 2 := by
  have long : 3 ≤ s.rfm12_index := found.complete ▸ le_max_left ..
  have first := found.agree 0 (by omega)
  refine ⟨announced_congr fun k small => found.agree k (by omega), ?_, found.agree 2 (by omega)⟩
  rw [routed, first]
  rfl

theorem Found.bytes (found : Found c s frame) (some : announced c s.rfm12_buf ≠ 0) :
    bytes (announced c s.rfm12_buf + 2) s.rfm12_buf = frame := by
  have complete := found.complete
  have index := found.index
  refine List.ext_getElem (by simp [Rfm12.bytes]; omega) fun k small inside => ?_
  simp only [Rfm12.bytes, List.getElem_map, List.getElem_range]
  rw [found.agree k (by omega), ofList, List.getD_eq_getElem _ _ inside]

theorem Found.strip (found : Found c s frame) (long : 3 ≤ announced c s.rfm12_buf) :
    Rfm12.bytes (announced c s.rfm12_buf - 3 + 2)
      (strip (announced c s.rfm12_buf - 1) s.rfm12_buf) = frame.drop 3 := by
  have complete := found.complete
  have index := found.index
  refine List.ext_getElem (by simp [Rfm12.bytes]; omega) fun k small inside => ?_
  rw [List.length_drop] at inside
  simp only [Rfm12.bytes, List.getElem_map, List.getElem_range, Rfm12.strip]
  rw [if_pos (by omega), found.agree (k + 3) (by omega), ofList, List.getD_eq_getElem _ _ (by omega),
    List.getElem_drop]
  exact getElem_congr_idx (Nat.add_comm k 3)

theorem Logged.append {frames : List (List UInt8)} {handed : List (Nat × List UInt8)}
    {forwarded : List (List UInt8)} (logged : Logged c frames handed forwarded) (found : Found c s frame) :
    Logged c (frames ++ [frame]) (handed ++ (deliver c frame).toList)
      (forwarded ++ (forward c frame).toList) where
  lengths other member := by
    rcases List.mem_append.mp member with old | new
    · exact logged.lengths other old
    · rw [List.mem_singleton.mp new, ← found.index, found.complete, found.header.1]
  handed := by
    rw [List.filterMap_append, ← logged.handed]
    cases deliver : deliver c frame <;> simp [deliver]
  forwarded := by
    rw [List.filterMap_append, ← logged.forwarded]
    cases forward : forward c frame <;> simp [forward]

theorem Inv.found (inv : Inv c system) (new : system.state.rfm12_status = .NEW) :
    Found c system.state system.current :=
  ⟨(inv.complete new).1, (inv.complete new).2⟩

section Found

variable (inv : Inv c system) (alone : system.state.txstart = none)
  (new : system.state.rfm12_status = .NEW)

include inv alone new

/-- A frame that the station drops. -/
theorem Inv.drops (finished : Rfm12.rxfinish c system.state = some (finish 0 system.state))
    (nowhere : deliver c system.current = none ∧ forward c system.current = none) :
    Inv c (system.next c (finish 0 system.state).2 .rxfinish) := by
  have free := (inv.busy (.inl new)).2
  have logged := inv.logged.append (inv.found new)
  rw [nowhere.1, nowhere.2, Option.toList_none, Option.toList_none] at logged
  have returned : returned c system.state = 0 := by
    rw [Rfm12.returned, finished]
    rfl
  rw [System.next, if_neg (by simp [alone, new])]
  simp only [returned]
  exact .ofReady ⟨rfl, rfl, rfl⟩ rfl (by simp [free]) logged

/-- A frame that the station hands to the stack. -/
theorem Inv.hands (some : announced c system.state.rfm12_buf ≠ 0)
    (direct : routed system.state.rfm12_buf = false) :
    Inv c (system.next c (finish (announced c system.state.rfm12_buf) system.state).2 .rxfinish) := by
  obtain ⟨locked, free⟩ := inv.busy (.inl new)
  have found := inv.found new
  obtain ⟨len, route, -⟩ := found.header
  have logged := inv.logged.append found
  have delivered : deliver c system.current =
      Option.some (announced c system.state.rfm12_buf, system.current) := by
    rw [deliver, if_neg (by rw [← route, ← len, direct]; simp [some]), len]
  have kept : forward c system.current = none := if_neg (by rw [← route, direct]; simp)
  rw [delivered, kept, Option.toList_none, Option.toList_some] at logged
  have returned : returned c system.state = announced c system.state.rfm12_buf := by
    rw [Rfm12.returned, Rfm12.rxfinish, if_neg (not_not_intro new), if_neg (by simp [direct])]
    rfl
  rw [System.next, if_neg (by simp [alone, new])]
  simp only [returned, finish, if_neg some, found.bytes some]
  exact {
    receiving := fun receiving => by cases receiving
    complete := fun new => by cases new
    busy := fun busy => by
      rcases busy with new | active | receiving
      · cases new
      · cases active
      · cases receiving.1
    idle := fun _ => iff_of_true locked (by simp [some])
    off := fun _ => by simp [some]
    between := fun _ _ => rfl
    logged := logged }

/-- A frame that the station forwards. -/
theorem Inv.forwards (header : routed system.state.rfm12_buf = true)
    (station : c.CONF_RFM12_STATID = some (system.state.rfm12_buf 2))
    (long : 3 ≤ announced c system.state.rfm12_buf) :
    ∃ after, Rfm12.rxfinish c system.state = some (0, after) ∧
      Inv c (system.next c after .rxfinish) := by
  obtain ⟨locked, free⟩ := inv.busy (.inl new)
  have found := inv.found new
  obtain ⟨len, route, router⟩ := found.header
  obtain ⟨indices, words⟩ := announced_lt (c := c) system.state.rfm12_buf
  have count : (announced c system.state.rfm12_buf + 65535) % 65536 =
      announced c system.state.rfm12_buf - 1 := by omega
  have txlen : (announced c system.state.rfm12_buf + c.indices - 3) % c.indices =
      announced c system.state.rfm12_buf - 3 := by
    rw [Nat.sub_add_comm long, Nat.add_mod_right, Nat.mod_eq_of_lt (by omega)]
  have inside := found.inside
  have complete := found.complete
  have forwarded : forward c system.current = some (system.current.drop 3) := by
    rw [forward, if_pos ⟨route ▸ header, router ▸ station⟩]
  have kept : deliver c system.current = none := if_pos (.inl (route ▸ header))
  have logged := inv.logged.append found
  rw [forwarded, kept, Option.toList_none, Option.toList_some, ← found.strip long] at logged
  have finished : Rfm12.rxfinish c system.state = some (0, txstartHard { system.state with
      rfm12_buf := strip (announced c system.state.rfm12_buf - 1) system.state.rfm12_buf
      rfm12_txlen := announced c system.state.rfm12_buf - 3 }) := by
    rw [Rfm12.rxfinish, if_neg (not_not_intro new)]
    simp only [header, if_true, station, count, txlen]
    rw [if_pos (by omega)]
  have returned : returned c system.state = 0 := by
    rw [Rfm12.returned, finished]
    rfl
  refine ⟨_, finished, ?_⟩
  rw [System.next, if_neg (by simp [alone, new])]
  simp only [returned, txstartHard]
  exact .ofActive rfl (by show 8 ≠ 0; decide) (by simp [free]) rfl logged

end Found

theorem Inv.rxfinish (inv : Inv c system) (sound : Sound c system .rxfinish)
    (alone : system.state.txstart = none) :
    ∃ after, (Rfm12.rxfinish c system.state).map Prod.snd = some after ∧
      Inv c (system.next c after .rxfinish) := by
  by_cases new : system.state.rfm12_status = .NEW
  swap
  · have same : Rfm12.rxfinish c system.state = some (0, system.state) := if_pos new
    refine ⟨system.state, by rw [same]; rfl, ?_⟩
    rw [System.next, if_pos (.inr new)]
    exact inv
  obtain ⟨len, route, router⟩ := (inv.found new).header
  by_cases header : routed system.state.rfm12_buf = true
  · cases station : c.CONF_RFM12_STATID with
    | none =>
        have finished : Rfm12.rxfinish c system.state = some (finish 0 system.state) := by
          rw [Rfm12.rxfinish, if_neg (not_not_intro new)]
          simp only [header, if_true, station]
        refine ⟨_, by rw [finished]; rfl, inv.drops alone new finished ⟨if_pos (.inl (route ▸ header)), ?_⟩⟩
        rw [forward, station, if_neg (by simp)]
    | some id =>
        obtain ⟨own, long⟩ := sound alone new header id station
        obtain ⟨after, finished, inv⟩ := inv.forwards alone new header (own ▸ station) long
        exact ⟨after, by rw [finished]; rfl, inv⟩
  · have finished : Rfm12.rxfinish c system.state =
        some (finish (announced c system.state.rfm12_buf) system.state) := by
      rw [Rfm12.rxfinish, if_neg (not_not_intro new), if_neg header]
    refine ⟨_, by rw [finished]; rfl, ?_⟩
    by_cases empty : announced c system.state.rfm12_buf = 0
    · rw [empty] at finished ⊢
      refine inv.drops alone new finished ⟨if_pos (.inr (len ▸ empty)), if_neg ?_⟩
      rw [← route]
      exact fun both => header both.1
    · exact inv.hands alone new empty (Bool.not_eq_true _ ▸ header)

theorem Inv.rxstart (inv : Inv c system) :
    Inv c (system.next c (Rfm12.rxstart system.state) .rxstart) := by
  simp only [System.next, Rfm12.rxstart]
  by_cases off : system.state.rfm12_status = .OFF
  · rw [if_neg (not_not_intro off)]
    have none := inv.between (by rw [off]; decide) (by rw [off]; decide)
    have still : ¬Busy system.state := by
      simp [Busy, off, Status.txActive]
    exact .ofWaiting rfl rfl none (inv.idle still) inv.logged
  · rw [if_pos off]
    exact {
      receiving := inv.receiving
      complete := inv.complete
      busy := inv.busy
      idle := inv.idle
      off := fun other => absurd other off
      between := inv.between
      logged := inv.logged }

/-- Somebody takes the lock, gives it back, or wants to transmit. -/
theorem Inv.ofLock (inv : Inv c system) (lock : Nat) (call : Option (Nat × Bytes)) (held : Bool)
    (still : Busy system.state → lock ≠ 0 ∧ held = false)
    (taken : ¬Busy system.state → (lock ≠ 0 ↔ held = true)) :
    Inv c { system with
      state := { system.state with uip_buf_lock := lock, txstart := call }
      held } where
  receiving receiving :=
    ⟨⟨(inv.receiving receiving).1.inside, (inv.receiving receiving).1.index, (inv.receiving receiving).1.agree⟩,
      (inv.receiving receiving).2⟩
  complete new :=
    ⟨⟨(inv.complete new).1.inside, (inv.complete new).1.index, (inv.complete new).1.agree⟩, (inv.complete new).2⟩
  busy := still
  idle := taken
  off := inv.off
  between := inv.between
  logged := inv.logged

theorem Inv.lock (inv : Inv c system) :
    Inv c (system.next c (if system.state.uip_buf_lock = 0 then { system.state with uip_buf_lock := 8 }
      else system.state) .lock) := by
  rw [System.next]
  by_cases free : system.state.uip_buf_lock = 0
  · rw [if_pos free]
    exact inv.ofLock 8 _ _ (fun busy => absurd free (inv.busy busy).1) fun _ => by simp [free]
  · rw [if_neg free]
    simp only [free, decide_false, Bool.or_false]
    exact inv

theorem Inv.unlock (inv : Inv c system) (held : system.held = true) :
    Inv c (system.next c (uipBufUnlock system.state) .unlock) := by
  have still : ¬Busy system.state := fun busy => by
    rw [(inv.busy busy).2] at held
    cases held
  have passive : ¬system.state.rfm12_status.txActive = true := fun active => still (.inr (.inl active))
  rw [System.next, uipBufUnlock, if_neg passive]
  exact inv.ofLock 0 _ false (fun busy => absurd busy still) fun _ => by simp

/-- The test of `rfm12_txstart` changes nothing that matters. -/
theorem Inv.txstart (inv : Inv c system) (size : Nat) (packet : Bytes) :
    Inv c (system.next c (txstartTest size packet system.state) (.txstart size packet)) := by
  rw [System.next, txstartTest]
  split
  · exact inv.ofLock _ _ _ inv.busy inv.idle
  · exact inv

theorem Inv.proceed (inv : Inv c system) :
    Inv c (system.next c (system.state.txstart.elim system.state fun (size, packet) =>
      txstartRest c size packet system.state) .proceed) := by
  rw [System.next]
  cases called : system.state.txstart with
  | none => exact inv
  | some call => exact .ofActive rfl (by show 8 ≠ 0; decide) rfl rfl inv.logged

/-! ## Runs -/

theorem Inv.step (inv : Inv c system) {event : Event} (sound : Sound c system event) :
    ∃ after, step c (some system) event = some after ∧ Inv c after := by
  have alone : ¬system.state.txstart.isSome = true → system.state.txstart = none := fun none => by
    simpa using none
  cases event with
  | interrupt byte =>
      obtain ⟨after, interrupted, inv⟩ := inv.interrupt byte
      exact ⟨_, congrArg (Option.map _) interrupted, inv⟩
  | rxfinish =>
      by_cases busy : system.state.txstart.isSome = true
      · refine ⟨_, congrArg (Option.map _) (if_pos busy), ?_⟩
        show Inv c (system.next c system.state .rxfinish)
        rw [System.next, if_pos (.inl busy)]
        exact inv
      · obtain ⟨after, finished, inv⟩ := inv.rxfinish sound (alone busy)
        exact ⟨_, congrArg (Option.map _) ((if_neg busy).trans finished), inv⟩
  | rxstart =>
      by_cases busy : system.state.txstart.isSome = true
      · refine ⟨_, congrArg (Option.map _) (if_pos busy), ?_⟩
        show Inv c (system.next c system.state .rxstart)
        rw [System.next, busy, Bool.and_true]
        exact inv
      · exact ⟨_, congrArg (Option.map _) (if_neg busy), inv.rxstart⟩
  | txstart size packet =>
      by_cases busy : system.state.txstart.isSome = true
      · exact ⟨_, congrArg (Option.map _) (if_pos busy), inv⟩
      · exact ⟨_, congrArg (Option.map _) (if_neg busy), inv.txstart size packet⟩
  | proceed => exact ⟨_, rfl, inv.proceed⟩
  | lock => exact ⟨_, rfl, inv.lock⟩
  | unlock =>
      by_cases held : system.held = true
      · exact ⟨_, if_pos held, inv.unlock held⟩
      · exact ⟨_, if_neg held, inv⟩

theorem Inv.receives (inv : Inv c system) : Receives c system where
  inside receiving := (inv.receiving receiving).1.inside
  logged := inv.logged
  ready free started := by
    by_contra neither
    obtain ⟨still, waits⟩ := not_or.mp neither
    have unlocked : system.state.uip_buf_lock = 0 := by
      by_contra locked
      rw [(inv.idle still).mp locked] at free
      cases free
    cases status : system.state.rfm12_status
    case OFF =>
      rw [inv.off status] at started
      cases started
    case NEW => exact still (.inl status)
    case RX =>
      by_cases first : system.state.rfm12_index = 0
      · exact waits ⟨status, first, unlocked⟩
      · exact still (.inr (.inr ⟨status, first⟩))
    all_goals exact still (.inr (.inl (by rw [status]; rfl)))

/-- The condition in a state, if that is defined. -/
def SoundIn (c : Config) (system : Option System) (event : Event) : Prop :=
  match system with
  | none => True
  | some system => Sound c system event

instance (system : Option System) (event : Event) : Decidable (SoundIn c system event) := by
  cases system <;> unfold SoundIn <;> infer_instance

/-- As long as a station that forwards finds no other frames with a route than its own, and none that
is too short, every frame is handed over, forwarded or dropped as it should be. -/
theorem receives_of_eachMeets (c : Config) (buf : Bytes) (events : List Event)
    (sound : EachMeets (step c) (SoundIn c) (some (initial buf)) events) :
    ∃ system, events.foldl (step c) (some (initial buf)) = some system ∧ Receives c system := by
  have keeps (system : Option System) (event : Event)
      (reached : ∃ here, system = some here ∧ Inv c here) (sound : SoundIn c system event) :
      ∃ after, step c system event = some after ∧ Inv c after := by
    obtain ⟨_, rfl, inv⟩ := reached
    exact inv.step sound
  obtain ⟨system, run, inv⟩ := sound.invariant keeps ⟨_, rfl, inv_initial buf⟩
  exact ⟨system, run, inv.receives⟩

/-- A station with the number 17 that forwards. -/
def station : Config where
  RFM12_BUFFER_LEN := 100
  TEENSY_SUPPORT := false
  CONF_RFM12_STATID := some 17
  CONF_RFM12_SOURCE_ROUTE_ALL_RTRID := none
  positive := by decide
  indexed := by decide

def zeros : Bytes := fun _ => 0

/-- The bytes of a frame arrive, and the main loop finds it. -/
def arrival (frame : List UInt8) : List Event := frame.map .interrupt ++ [.rxfinish]

/-- A frame with a route through the station. -/
theorem receives_of_eachMeets_routed :
    ∃ system, (arrival [0x80, 4, 17, 0, 1, 7]).foldl (step station) (some (initial zeros)) = some system ∧
      Receives station system :=
  receives_of_eachMeets station zeros (arrival [0x80, 4, 17, 0, 1, 7]) (by decide +kernel)

/-- A frame with a route through another station is handed to the stack. -/
theorem not_receives :
    ¬∀ (c : Config) (buf : Bytes) (events : List Event),
      ∃ system, events.foldl (step c) (some (initial buf)) = some system ∧ Receives c system := by
  intro always
  obtain ⟨system, run, receives⟩ := always station zeros (arrival [0x80, 4, 18, 0, 1, 7])
  have logs : ((arrival [0x80, 4, 18, 0, 1, 7]).foldl (step station) (some (initial zeros))).map
      (fun system => (system.handed.length, (system.frames.filterMap (deliver station)).length)) =
        some (1, 0) := by decide
  rw [run, Option.map_some, Option.some.injEq, Prod.mk.injEq] at logs
  have same := congrArg List.length receives.logged.handed
  rw [logs.1, logs.2] at same
  exact absurd same (by decide)

end Ethersex.Rfm12
