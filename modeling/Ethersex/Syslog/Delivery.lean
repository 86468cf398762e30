import Ethersex.Syslog.Model
import Ethersex.Library.Walks

/-!
# What happens to accepted messages

The client takes a buffer that is not empty for a sign that its callback is registered.  That holds
as long as the first message in the buffer registers it and is not empty.
-/

namespace Ethersex.Syslog

open Ethersex.Library

/-! ## The two properties -/

/-- Whether an entry refers to the send buffer. -/
def refers (ctx : SyslogCallbackCtx) : Bool := ctx.data = .sendBuffer

/-- A send buffer with something in it is referred to by exactly one entry of the table. -/
def BufferReferred (state : State) : Prop :=
  state.send_buffer ≠ [] → (filled state.syslog_callbacks).countP refers = 1

/-- Every accepted message is part of exactly one datagram, and there is nothing else in them. -/
def Delivered (state : State) : Prop :=
  ∃ parts : List (List Text),
    state.datagrams = parts.map List.flatten ∧ parts.flatten.Perm state.accepted

/-- Flushes until the table is empty, with no call in between. -/
def flushAll (appdata : Nat) (state : Option State) : Option State :=
  (List.replicate SYSLOG_CALLBACKS (.flush true)).foldl (step appdata) state

/-! ## The condition -/

/-- The text fits into the packet buffer. -/
def Fits (appdata : Nat) (text : Text) : Prop := text.length + 1 ≤ appdata

/-- A message for an empty buffer finds a free entry for its callback, unless it is empty itself, and
then it finds none. -/
def Registers (state : State) (message : Text) : Prop :=
  state.send_buffer = [] → (message = [] ↔ none ∉ state.syslog_callbacks)

def Sound (appdata : Nat) (state : State) : Event → Prop
  | .send message =>
      message.length + state.send_buffer.length + 1 ≤ MAX_DYNAMIC_SYSLOG_BUFFER →
        Registers state message ∧ Fits appdata (state.send_buffer ++ message)
  | .sendf text =>
      text.length + state.send_buffer.length + 1 ≤ MAX_DYNAMIC_SYSLOG_BUFFER ∧
        Registers state text ∧ Fits appdata (state.send_buffer ++ text)
  | .sendP message => none ∈ state.syslog_callbacks → message ≠ [] ∧ Fits appdata message
  | .sendPtr message => none ∈ state.syslog_callbacks → message ≠ [] ∧ Fits appdata message
  | .flush _ => True

instance (appdata : Nat) (state : State) : ∀ event, Decidable (Sound appdata state event) := by
  intro event
  cases event <;> simp only [Sound, Registers, Fits] <;> infer_instance

/-! ## The invariant -/

/-- The texts that entries of the table refer to elsewhere. -/
def elsewhere (entries : List SyslogCallbackCtx) : List Text :=
  entries.filterMap fun ctx =>
    match ctx.data with
    | .sendBuffer => none
    | .message text => some text

/-- What the client owes: the messages that were sent, those in the buffer, and those elsewhere. -/
structure Owes (appdata : Nat) (state : State) (parts : List (List Text)) (buffered : List Text) :
    Prop where
  slots : state.syslog_callbacks.length = SYSLOG_CALLBACKS
  sent : state.datagrams = parts.map List.flatten
  buffer : state.send_buffer = buffered.flatten
  empty : state.send_buffer = [] → buffered = []
  referred : (filled state.syslog_callbacks).countP refers = if state.send_buffer = [] then 0 else 1
  callback : ∀ ctx ∈ filled state.syslog_callbacks, refers ctx → ctx = ⟨.syslogSendCb, .sendBuffer⟩
  proper : ∀ text ∈ elsewhere (filled state.syslog_callbacks), text ≠ [] ∧ Fits appdata text
  fits : state.send_buffer ≠ [] → Fits appdata state.send_buffer
  accepted : (parts.flatten ++ buffered ++ elsewhere (filled state.syslog_callbacks)).Perm
    state.accepted

variable {appdata : Nat} {state : State} {parts : List (List Text)} {buffered : List Text}

theorem owes_start : Owes appdata start [] [] where
  slots := rfl
  sent := rfl
  buffer := rfl
  empty _ := rfl
  referred := rfl
  callback _ none := absurd none List.not_mem_nil
  proper _ none := absurd none List.not_mem_nil
  fits nonempty := absurd rfl nonempty
  accepted := .nil

theorem elsewhere_perm {left right : List SyslogCallbackCtx} (perm : left.Perm right) :
    (elsewhere left).Perm (elsewhere right) := perm.filterMap _

/-- A text elsewhere is accepted when there is a free entry. -/
theorem Owes.insert_message (owes : Owes appdata state parts buffered) (callback : Callback)
    {message : Text} (proper : none ∈ state.syslog_callbacks → message ≠ [] ∧ Fits appdata message) :
    Owes appdata (logged message (syslogInsertCallback callback (.message message) state)) parts
      buffered := by
  rw [syslogInsertCallback]
  cases inserted : insertSlot ⟨callback, .message message⟩ state.syslog_callbacks with
  | none => exact owes
  | some next =>
      obtain ⟨perm, length⟩ := filled_insertSlot inserted
      have free : none ∈ state.syslog_callbacks := by
        by_contra full
        rw [insertSlot_eq_none.mpr full] at inserted
        cases inserted
      have texts := elsewhere_perm perm
      exact {
        slots := length.trans owes.slots
        sent := owes.sent
        buffer := owes.buffer
        empty := owes.empty
        referred := (perm.countP_eq refers).trans owes.referred
        callback := fun ctx inside refers => by
          rcases List.mem_cons.mp (perm.mem_iff.mp inside) with rfl | old
          · cases refers
          · exact owes.callback ctx old refers
        proper := fun text inside => by
          rcases List.mem_cons.mp (texts.mem_iff.mp inside) with rfl | old
          · exact proper free
          · exact owes.proper text old
        fits := owes.fits
        accepted := by
          have behind := (texts.trans (List.perm_append_singleton message _).symm).append_left
            (parts.flatten ++ buffered)
          rw [← List.append_assoc] at behind
          exact behind.trans (owes.accepted.append_right [message]) }

/-- What both `syslog_send` and `syslog_sendf` do with a text that fits into the send buffer. -/
def enqueue (message : Text) (state : State) : Bool × State :=
  let appended := { state with send_buffer := state.send_buffer ++ message }
  if state.send_buffer.length = 0 then syslogInsertCallback .syslogSendCb .sendBuffer appended
  else (true, appended)

theorem syslogSend_eq {message : Text}
    (small : message.length + state.send_buffer.length + 1 ≤ MAX_DYNAMIC_SYSLOG_BUFFER) :
    syslogSend message state = enqueue message state := by
  rw [syslogSend, if_neg (not_lt.mpr small)]
  rfl

theorem syslogSendf_eq {text : Text}
    (small : text.length + state.send_buffer.length + 1 ≤ MAX_DYNAMIC_SYSLOG_BUFFER) :
    syslogSendf text state = enqueue text state := by
  rw [syslogSendf, List.take_of_length_le (by omega)]
  rfl

/-- A message behind others in the buffer. -/
theorem Owes.append (owes : Owes appdata state parts buffered) {message : Text}
    (pending : state.send_buffer ≠ []) (fits : Fits appdata (state.send_buffer ++ message)) :
    Owes appdata (logged message (enqueue message state)) parts (buffered ++ [message]) := by
  have filled : state.send_buffer ++ message ≠ [] := List.append_ne_nil_of_left_ne_nil pending _
  rw [enqueue, if_neg fun none => pending (List.length_eq_zero_iff.mp none)]
  exact {
    slots := owes.slots
    sent := owes.sent
    buffer := by
      rw [List.flatten_append, ← owes.buffer]
      exact congrArg (state.send_buffer ++ ·) (List.append_nil message).symm
    empty := fun none => absurd none filled
    referred := (owes.referred.trans (if_neg pending)).trans (if_neg filled).symm
    callback := owes.callback
    proper := owes.proper
    fits := fun _ => fits
    accepted := by
      refine List.Perm.trans ?_ (owes.accepted.append_right [message])
      rw [← List.append_assoc, List.append_assoc, List.append_assoc (parts.flatten ++ buffered)]
      exact (@List.perm_append_comm _ [message] _).append_left _ }

/-- The first message of the buffer. -/
theorem Owes.register (owes : Owes appdata state parts buffered) {message : Text}
    (empty : state.send_buffer = []) (registers : message = [] ↔ none ∉ state.syslog_callbacks)
    (fits : Fits appdata (state.send_buffer ++ message)) :
    ∃ buffered, Owes appdata (logged message (enqueue message state)) parts buffered := by
  rw [empty, List.nil_append] at fits
  rw [enqueue, if_pos (List.length_eq_zero_iff.mpr empty), syslogInsertCallback]
  cases inserted : insertSlot (⟨.syslogSendCb, .sendBuffer⟩ : SyslogCallbackCtx) state.syslog_callbacks with
  | none =>
      obtain rfl : message = [] := registers.mpr (insertSlot_eq_none.mp inserted)
      refine ⟨buffered, ?_⟩
      simp only [List.append_nil]
      exact owes
  | some next =>
      obtain ⟨perm, length⟩ := filled_insertSlot inserted
      have nonempty : message ≠ [] := fun none => by
        rw [insertSlot_eq_none.mpr (registers.mp none)] at inserted
        cases inserted
      have texts := elsewhere_perm perm
      refine ⟨[message], ?_⟩
      simp only [empty, List.nil_append]
      exact {
        slots := length.trans owes.slots
        sent := owes.sent
        buffer := (List.append_nil message).symm
        empty := fun none => absurd none nonempty
        referred := by
          refine (perm.countP_eq refers).trans ((List.countP_cons_of_pos rfl).trans ?_)
          rw [owes.referred, if_pos empty]
          exact (if_neg nonempty).symm
        callback := fun ctx inside refers => by
          rcases List.mem_cons.mp (perm.mem_iff.mp inside) with rfl | old
          · rfl
          · exact owes.callback ctx old refers
        proper := fun text inside => owes.proper text (texts.mem_iff.mp inside)
        fits := fun _ => fits
        accepted := by
          have before := owes.accepted.append_right [message]
          rw [owes.empty empty, List.append_nil] at before
          refine List.Perm.trans ?_ before
          rw [List.append_assoc, List.append_assoc]
          exact ((texts.append_left [message]).trans List.perm_append_comm).append_left _ }

/-- A message for the buffer. -/
theorem Owes.enqueue (owes : Owes appdata state parts buffered) {message : Text}
    (registers : Registers state message) (fits : Fits appdata (state.send_buffer ++ message)) :
    ∃ buffered, Owes appdata (logged message (enqueue message state)) parts buffered := by
  by_cases empty : state.send_buffer = []
  · exact owes.register empty (registers empty) fits
  · exact ⟨_, owes.append empty fits⟩

/-- The entry that a flush calls and clears refers to a text elsewhere. -/
theorem Owes.flush_message (owes : Owes appdata state parts buffered) {callback : Callback}
    {text : Text} {rest : List (Option SyslogCallbackCtx)}
    (taken : takeSlot state.syslog_callbacks = some (⟨callback, .message text⟩, rest)) :
    ∃ next, syslogFlush appdata true state = some next ∧
      Owes appdata next (parts ++ [[text]]) buffered ∧ next.accepted = state.accepted ∧
      next.syslog_callbacks = rest := by
  obtain ⟨perm, length⟩ := filled_takeSlot taken
  have texts := elsewhere_perm perm
  obtain ⟨nonempty, fits⟩ := owes.proper text (texts.mem_iff.mpr List.mem_cons_self)
  have called : call appdata ⟨callback, .message text⟩ state = some (text, state) := by
    cases callback <;> exact if_neg (not_lt.mpr fits)
  refine ⟨{ state with syslog_callbacks := rest, datagrams := state.datagrams ++ [text] }, ?_, ?_, rfl, rfl⟩
  · simp only [syslogFlush, if_true, taken, called, Option.map_some, if_neg nonempty]
  · exact {
      slots := length.trans owes.slots
      sent := by simp [owes.sent]
      buffer := owes.buffer
      empty := owes.empty
      referred := (perm.countP_eq refers).symm.trans owes.referred
      callback := fun ctx inside => owes.callback ctx (perm.mem_iff.mpr (List.mem_cons_of_mem _ inside))
      proper := fun other inside => owes.proper other (texts.mem_iff.mpr (List.mem_cons_of_mem _ inside))
      fits := owes.fits
      accepted := by
        refine List.Perm.trans ?_ owes.accepted
        refine List.Perm.trans ?_ (texts.symm.append_left (parts.flatten ++ buffered))
        rw [List.flatten_append, List.append_assoc, List.append_assoc, List.append_assoc]
        exact (@List.perm_middle _ _ buffered _).symm.append_left _ }

/-- The entry that a flush calls and clears refers to the send buffer. -/
theorem Owes.flush_buffer (owes : Owes appdata state parts buffered) {callback : Callback}
    {rest : List (Option SyslogCallbackCtx)}
    (taken : takeSlot state.syslog_callbacks = some (⟨callback, .sendBuffer⟩, rest)) :
    ∃ next, syslogFlush appdata true state = some next ∧
      Owes appdata next (parts ++ [buffered]) [] ∧ next.accepted = state.accepted ∧
      next.syslog_callbacks = rest := by
  obtain ⟨perm, length⟩ := filled_takeSlot taken
  have texts := elsewhere_perm perm
  have count := (perm.countP_eq refers).symm.trans owes.referred
  rw [List.countP_cons_of_pos rfl] at count
  have nonempty : state.send_buffer ≠ [] := fun none => by
    rw [if_pos none] at count
    exact Nat.succ_ne_zero _ count
  rw [if_neg nonempty] at count
  have last : callback = .syslogSendCb := congrArg SyslogCallbackCtx.callback
    (owes.callback _ (perm.mem_iff.mpr List.mem_cons_self) rfl)
  have called : call appdata ⟨callback, .sendBuffer⟩ state =
      some (state.send_buffer, { state with send_buffer := [] }) := by
    rw [last]
    exact if_neg (not_lt.mpr (owes.fits nonempty))
  refine ⟨⟨[], rest, state.accepted, state.datagrams ++ [state.send_buffer]⟩, ?_, ?_, rfl, rfl⟩
  · simp only [syslogFlush, if_true, taken, called, Option.map_some, if_neg nonempty]
  · exact {
      slots := length.trans owes.slots
      sent := by simp [owes.sent, owes.buffer]
      buffer := rfl
      empty := fun _ => rfl
      referred := Nat.succ.inj count
      callback := fun ctx inside => owes.callback ctx (perm.mem_iff.mpr (List.mem_cons_of_mem _ inside))
      proper := fun other inside => owes.proper other (texts.mem_iff.mpr inside)
      fits := fun none => absurd rfl none
      accepted := by
        refine List.Perm.trans ?_ owes.accepted
        rw [List.flatten_append, List.flatten_singleton, List.append_nil]
        exact texts.symm.append_left (parts.flatten ++ buffered) }

/-- A flush defines a state, and hands over what is in one entry of the table. -/
theorem Owes.flush (owes : Owes appdata state parts buffered) :
    ∃ next parts buffered, syslogFlush appdata true state = some next ∧
      Owes appdata next parts buffered ∧ next.accepted = state.accepted ∧
      (filled next.syslog_callbacks).length = (filled state.syslog_callbacks).length - 1 := by
  cases taken : takeSlot state.syslog_callbacks with
  | none =>
      refine ⟨state, parts, buffered, ?_, owes, rfl, ?_⟩
      · simp only [syslogFlush, if_true, taken]
      · rw [takeSlot_eq_none.mp taken]
        rfl
  | some first =>
      obtain ⟨⟨callback, data⟩, rest⟩ := first
      have fewer : (filled rest).length = (filled state.syslog_callbacks).length - 1 := by
        rw [(filled_takeSlot taken).1.length_eq]
        rfl
      cases data with
      | sendBuffer =>
          obtain ⟨next, flushed, owes, same, left⟩ := owes.flush_buffer taken
          exact ⟨next, _, _, flushed, owes, same, left ▸ fewer⟩
      | message text =>
          obtain ⟨next, flushed, owes, same, left⟩ := owes.flush_message taken
          exact ⟨next, _, _, flushed, owes, same, left ▸ fewer⟩

/-! ## Runs -/

/-- The condition in a state, if that is defined. -/
def SoundIn (appdata : Nat) (state : Option State) (event : Event) : Prop :=
  match state with
  | none => True
  | some state => Sound appdata state event

instance (appdata : Nat) : ∀ state event, Decidable (SoundIn appdata state event)
  | none, _ => isTrue trivial
  | some state, event => inferInstanceAs (Decidable (Sound appdata state event))

theorem Owes.step (owes : Owes appdata state parts buffered) {event : Event}
    (sound : Sound appdata state event) :
    ∃ next parts buffered, step appdata (some state) event = some next ∧
      Owes appdata next parts buffered := by
  cases event with
  | send message =>
      by_cases small : message.length + state.send_buffer.length + 1 ≤ MAX_DYNAMIC_SYSLOG_BUFFER
      · obtain ⟨registers, fits⟩ := sound small
        obtain ⟨buffered, owes⟩ := owes.enqueue registers fits
        rw [← syslogSend_eq small] at owes
        exact ⟨_, parts, buffered, rfl, owes⟩
      · have refused : syslogSend message state = (false, state) := if_pos (not_le.mp small)
        refine ⟨_, parts, buffered, rfl, ?_⟩
        rw [refused]
        exact owes
  | sendf text =>
      obtain ⟨small, registers, fits⟩ := sound
      obtain ⟨buffered, owes⟩ := owes.enqueue registers fits
      rw [← syslogSendf_eq small] at owes
      exact ⟨_, parts, buffered, rfl, owes⟩
  | sendP message => exact ⟨_, parts, buffered, rfl, owes.insert_message _ sound⟩
  | sendPtr message => exact ⟨_, parts, buffered, rfl, owes.insert_message _ sound⟩
  | flush known =>
      cases known with
      | false => exact ⟨state, parts, buffered, rfl, owes⟩
      | true =>
          obtain ⟨next, parts, buffered, flushed, owes, -⟩ := owes.flush
          exact ⟨next, parts, buffered, flushed, owes⟩

/-- Flushes hand over one entry after another. -/
theorem Owes.flushes (owes : Owes appdata state parts buffered) (count : Nat) :
    ∃ next parts buffered,
      (List.replicate count (.flush true)).foldl (Syslog.step appdata) (some state) = some next ∧
        Owes appdata next parts buffered ∧ next.accepted = state.accepted ∧
        (filled next.syslog_callbacks).length = (filled state.syslog_callbacks).length - count := by
  induction count generalizing state parts buffered with
  | zero => exact ⟨state, parts, buffered, rfl, owes, rfl, rfl⟩
  | succ count ih =>
      obtain ⟨middle, _, _, flushed, owes, same, fewer⟩ := owes.flush
      obtain ⟨next, parts, buffered, run, owes, kept, left⟩ := ih owes
      refine ⟨next, parts, buffered, ?_, owes, kept.trans same, by omega⟩
      have first : Syslog.step appdata (some state) (.flush true) = some middle := flushed
      rw [List.replicate_succ, List.foldl_cons, first, run]

/-- What is owed with nothing in the table was sent. -/
theorem Owes.delivered (owes : Owes appdata state parts buffered)
    (none : filled state.syslog_callbacks = []) : Delivered state := by
  have empty : state.send_buffer = [] := by
    by_contra pending
    have referred := owes.referred
    rw [none, if_neg pending] at referred
    exact absurd referred (by decide)
  have accepted := owes.accepted
  rw [none, owes.empty empty, List.append_nil] at accepted
  exact ⟨parts, owes.sent, (List.append_nil _ ▸ accepted :)⟩

/-- As long as no call comes in a state that the client mistakes, a buffer with something in it has
one entry, and as many flushes as there are entries deliver everything. -/
theorem delivered_of_eachMeets (appdata : Nat) (events : List Event)
    (sound : EachMeets (step appdata) (SoundIn appdata) (some start) events) :
    ∃ state, events.foldl (step appdata) (some start) = some state ∧ BufferReferred state ∧
      ∃ flushed, flushAll appdata (some state) = some flushed ∧
        flushed.accepted = state.accepted ∧ Delivered flushed := by
  have keeps (state : Option State) (event : Event)
      (owed : ∃ reached parts buffered, state = some reached ∧ Owes appdata reached parts buffered)
      (sound : SoundIn appdata state event) :
      ∃ reached parts buffered, step appdata state event = some reached ∧
        Owes appdata reached parts buffered := by
    obtain ⟨_, _, _, rfl, owes⟩ := owed
    exact owes.step sound
  obtain ⟨state, parts, buffered, run, owes⟩ :=
    sound.invariant keeps ⟨start, [], [], rfl, owes_start⟩
  refine ⟨state, run, fun pending => owes.referred.trans (if_neg pending), ?_⟩
  have slots := (length_filled_le state.syslog_callbacks).trans_eq owes.slots
  obtain ⟨flushed, _, _, flushes, owes, same, left⟩ := owes.flushes SYSLOG_CALLBACKS
  exact ⟨flushed, flushes, same, owes.delivered (List.length_eq_zero_iff.mp (by omega))⟩

/-- Two texts in the buffer and one in the program memory. -/
theorem delivered_of_eachMeets_buffered :
    ∃ state,
      [.send [97], .sendP [98], .sendf [99]].foldl (step 500) (some start) = some state ∧
        BufferReferred state ∧
        ∃ flushed, flushAll 500 (some state) = some flushed ∧
          flushed.accepted = state.accepted ∧ Delivered flushed :=
  delivered_of_eachMeets 500 [.send [97], .sendP [98], .sendf [99]] (by decide)

/-- A message that was refused because the table is full stays in the buffer, without an entry. -/
theorem not_bufferReferred :
    ¬∀ (appdata : Nat) (events : List Event) (state : State),
      events.foldl (step appdata) (some start) = some state → BufferReferred state := by
  intro always
  have referred := always 500 [.sendP [97], .sendP [98], .sendP [99], .send [100]] _ rfl
  exact absurd (referred (by decide)) (by decide)

end Ethersex.Syslog
