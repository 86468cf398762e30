import Ethersex.Syslog.Delivery

/-!
# The order of the messages

An entry of the table that was flushed is free for the next message, which then leaves before all that were
accepted before it, and a message for the send buffer leaves with the entry of the buffer, wherever that is.
Messages keep their order as long as every new one comes behind all the others.
-/

namespace Ethersex.Syslog

open Ethersex.Library

/-- The messages that were sent are the first ones that were accepted, in this order; every datagram consists of
some that follow each other. -/
def Ordered (state : State) : Prop :=
  ∃ parts : List (List Text),
    state.datagrams = (parts.map List.flatten).filter (· ≠ []) ∧ parts.flatten <+: state.accepted

/-- The entries that refer to the send buffer are the last ones. -/
def BufferLast (entries : List SyslogCallbackCtx) : Prop :=
  ∀ ctx ∈ entries.dropWhile fun ctx => !refers ctx, refers ctx

/-- A message comes behind all the others: a new entry is put behind those that are used, and a message for the
send buffer finds no other one behind the entries of the buffer. -/
def Behind (state : State) : Event → Prop
  | .send message =>
      message.length + state.send_buffer.length + 1 ≤ MAX_DYNAMIC_SYSLOG_BUFFER →
        (state.send_buffer = [] → none ∈ state.syslog_callbacks ∧ Packed state.syslog_callbacks) ∧
          BufferLast (filled state.syslog_callbacks)
  | .sendf text =>
      text.length + state.send_buffer.length + 1 ≤ MAX_DYNAMIC_SYSLOG_BUFFER ∧
        (state.send_buffer = [] → none ∈ state.syslog_callbacks ∧ Packed state.syslog_callbacks) ∧
          BufferLast (filled state.syslog_callbacks)
  | .sendP _ => none ∈ state.syslog_callbacks ∧ Packed state.syslog_callbacks
  | .sendPtr _ => none ∈ state.syslog_callbacks ∧ Packed state.syslog_callbacks
  | .flush _ => True

instance (entries : List SyslogCallbackCtx) : Decidable (BufferLast entries) :=
  inferInstanceAs (Decidable (∀ ctx ∈ entries.dropWhile fun ctx => !refers ctx, refers ctx))

instance (state : State) : ∀ event, Decidable (Behind state event)
  | .send message =>
      inferInstanceAs (Decidable (message.length + state.send_buffer.length + 1 ≤ MAX_DYNAMIC_SYSLOG_BUFFER →
        (state.send_buffer = [] → none ∈ state.syslog_callbacks ∧ Packed state.syslog_callbacks) ∧
          BufferLast (filled state.syslog_callbacks)))
  | .sendf text =>
      inferInstanceAs (Decidable (text.length + state.send_buffer.length + 1 ≤ MAX_DYNAMIC_SYSLOG_BUFFER ∧
        (state.send_buffer = [] → none ∈ state.syslog_callbacks ∧ Packed state.syslog_callbacks) ∧
          BufferLast (filled state.syslog_callbacks)))
  | .sendP _ => inferInstanceAs (Decidable (none ∈ state.syslog_callbacks ∧ Packed state.syslog_callbacks))
  | .sendPtr _ => inferInstanceAs (Decidable (none ∈ state.syslog_callbacks ∧ Packed state.syslog_callbacks))
  | .flush _ => isTrue trivial

/-- The condition in a state, if that is defined. -/
def BehindIn (state : Option State) (event : Event) : Prop :=
  match state with
  | none => True
  | some state => Behind state event

instance : ∀ state event, Decidable (BehindIn state event)
  | none, _ => isTrue trivial
  | some state, event => inferInstanceAs (Decidable (Behind state event))

/-! ## The invariant -/

/-- The messages that wait, in the order of their entries: the first entry of the send buffer has them all. -/
def waiting : List SyslogCallbackCtx → List Text → List Text
  | [], _ => []
  | ⟨_, .message text⟩ :: rest, buffered => text :: waiting rest buffered
  | ⟨_, .sendBuffer⟩ :: rest, buffered => buffered ++ waiting rest []

/-- The messages that were accepted are those that were sent and those that wait, in this order. -/
structure Queued (state : State) (parts : List (List Text)) (buffered : List Text) : Prop where
  sent : state.datagrams = (parts.map List.flatten).filter (· ≠ [])
  buffer : state.send_buffer = buffered.flatten
  referred : (∀ ctx ∈ filled state.syslog_callbacks, refers ctx = false) → buffered = []
  callback : ∀ ctx ∈ filled state.syslog_callbacks, refers ctx → ctx = ⟨.syslogSendCb, .sendBuffer⟩
  accepted : state.accepted = parts.flatten ++ waiting (filled state.syslog_callbacks) buffered

variable {state : State} {parts : List (List Text)} {buffered : List Text}

/-- In this order, the characters that were sent are the first ones that were accepted. -/
theorem Ordered.characters (ordered : Ordered state) : state.datagrams.flatten <+: state.accepted.flatten := by
  obtain ⟨parts, sent, rest, accepted⟩ := ordered
  rw [sent, List.flatten_filter_ne_nil, ← List.flatten_flatten, ← accepted, List.flatten_append]
  exact List.prefix_append _ _

theorem Queued.ordered (queued : Queued state parts buffered) : Ordered state :=
  ⟨parts, queued.sent, queued.accepted ▸ List.prefix_append _ _⟩

theorem queued_start : Queued start [] [] where
  sent := rfl
  buffer := rfl
  referred _ := rfl
  callback _ inside := absurd inside List.not_mem_nil
  accepted := rfl

theorem waiting_concat_message (entries : List SyslogCallbackCtx) (callback : Callback) (text : Text)
    (buffered : List Text) :
    waiting (entries ++ [⟨callback, .message text⟩]) buffered = waiting entries buffered ++ [text] := by
  fun_induction waiting entries buffered with
  | case1 => rfl
  | case2 => simp [waiting, *]
  | case3 => simp [waiting, *]

/-- Further entries of the send buffer find it empty. -/
theorem waiting_buffers {entries : List SyslogCallbackCtx} (all : ∀ ctx ∈ entries, refers ctx) :
    waiting entries [] = [] := by
  induction entries with
  | nil => rfl
  | cons ctx rest ih =>
      obtain ⟨here, later⟩ := List.forall_mem_cons.mp all
      obtain ⟨callback, _ | text⟩ := ctx
      · exact ih later
      · cases here

/-- The first entry of the send buffer is followed by such entries only. -/
theorem BufferLast.all {callback : Callback} {rest : List SyslogCallbackCtx}
    (last : BufferLast (⟨callback, .sendBuffer⟩ :: rest)) : ∀ ctx ∈ rest, refers ctx :=
  fun ctx inside => last ctx (List.mem_cons_of_mem _ inside)

/-- A message behind others in the buffer waits behind everything. -/
theorem waiting_append {entries : List SyslogCallbackCtx} (last : BufferLast entries)
    (referred : ∃ ctx ∈ entries, refers ctx) (buffered : List Text) (message : Text) :
    waiting entries (buffered ++ [message]) = waiting entries buffered ++ [message] := by
  induction entries with
  | nil =>
      obtain ⟨ctx, inside, -⟩ := referred
      cases inside
  | cons ctx rest ih =>
      obtain ⟨callback, _ | text⟩ := ctx
      · simp [waiting, waiting_buffers last.all]
      · have below : ∃ ctx ∈ rest, refers ctx := by
          obtain ⟨other, inside, refers⟩ := referred
          rcases List.mem_cons.mp inside with rfl | later
          · cases refers
          · exact ⟨other, later, refers⟩
        exact congrArg (text :: ·) (ih last below)

/-- A message with a new entry for the buffer waits behind everything. -/
theorem waiting_concat_buffer {entries : List SyslogCallbackCtx} (last : BufferLast entries)
    {buffered : List Text} (referred : (∀ ctx ∈ entries, refers ctx = false) → buffered = [])
    (callback : Callback) (message : Text) :
    waiting (entries ++ [⟨callback, .sendBuffer⟩]) (buffered ++ [message]) =
      waiting entries buffered ++ [message] := by
  induction entries with
  | nil =>
      have empty := referred fun ctx inside => absurd inside List.not_mem_nil
      rw [empty]
      rfl
  | cons ctx rest ih =>
      obtain ⟨first, _ | text⟩ := ctx
      · have more : ∀ ctx ∈ rest ++ [⟨callback, .sendBuffer⟩], refers ctx := by
          intro other inside
          rcases List.mem_append.mp inside with old | new
          · exact last.all other old
          · rw [List.mem_singleton.mp new]
            rfl
        simp [waiting, waiting_buffers last.all, waiting_buffers more]
      · refine congrArg (text :: ·) (ih last fun none_ => referred fun other inside => ?_)
        rcases List.mem_cons.mp inside with rfl | later
        · rfl
        · exact none_ other later

/-! ## The steps -/

/-- A text elsewhere comes behind everything. -/
theorem Queued.insert_message (queued : Queued state parts buffered) (callback : Callback) (message : Text)
    (behind : none ∈ state.syslog_callbacks ∧ Packed state.syslog_callbacks) :
    Queued (logged message (syslogInsertCallback callback (.message message) state)) parts buffered := by
  rw [syslogInsertCallback]
  cases inserted : insertSlot ⟨callback, .message message⟩ state.syslog_callbacks with
  | none => exact absurd behind.1 (insertSlot_eq_none.mp inserted)
  | some next =>
      have entries := filled_insertSlot_of_packed behind.2 inserted
      exact {
        sent := queued.sent
        buffer := queued.buffer
        referred := fun unreferred => queued.referred fun ctx inside =>
          unreferred ctx (entries ▸ List.mem_append_left _ inside)
        callback := fun ctx inside refers => by
          rcases List.mem_append.mp (entries ▸ inside) with old | new
          · exact queued.callback ctx old refers
          · rw [List.mem_singleton.mp new] at refers
            cases refers
        accepted := by
          show state.accepted ++ [message] = parts.flatten ++ waiting (filled next) buffered
          rw [entries, waiting_concat_message, queued.accepted, List.append_assoc] }

/-- A message for the send buffer comes behind everything. -/
theorem Queued.enqueue (queued : Queued state parts buffered) (message : Text)
    (behind : state.send_buffer = [] → none ∈ state.syslog_callbacks ∧ Packed state.syslog_callbacks)
    (last : BufferLast (filled state.syslog_callbacks)) :
    Queued (logged message (enqueue message state)) parts (buffered ++ [message]) := by
  have buffer : state.send_buffer ++ message = (buffered ++ [message]).flatten := by
    rw [queued.buffer, List.flatten_append, List.flatten_singleton]
  by_cases empty : state.send_buffer = []
  · rw [Syslog.enqueue, if_pos (List.length_eq_zero_iff.mpr empty), syslogInsertCallback]
    cases inserted : insertSlot (⟨.syslogSendCb, .sendBuffer⟩ : SyslogCallbackCtx) state.syslog_callbacks with
    | none => exact absurd (behind empty).1 (insertSlot_eq_none.mp inserted)
    | some next =>
        have entries := filled_insertSlot_of_packed (behind empty).2 inserted
        exact {
          sent := queued.sent
          buffer := buffer
          referred := fun unreferred => by
            have here := unreferred _ (entries ▸ List.mem_append_right _ List.mem_cons_self)
            cases here
          callback := fun ctx inside refers => by
            rcases List.mem_append.mp (entries ▸ inside) with old | new
            · exact queued.callback ctx old refers
            · exact List.mem_singleton.mp new
          accepted := by
            show state.accepted ++ [message] = parts.flatten ++ waiting (filled next) (buffered ++ [message])
            rw [entries, waiting_concat_buffer last queued.referred, queued.accepted, List.append_assoc] }
  · have pending : buffered ≠ [] := by
      intro none_
      rw [queued.buffer, none_] at empty
      exact empty rfl
    have referred : ∃ ctx ∈ filled state.syslog_callbacks, refers ctx := by
      by_contra unreferred
      refine pending (queued.referred fun ctx inside => Bool.eq_false_iff.mpr fun refers => ?_)
      exact unreferred ⟨ctx, inside, refers⟩
    rw [Syslog.enqueue, if_neg fun none_ => empty (List.length_eq_zero_iff.mp none_)]
    exact {
      sent := queued.sent
      buffer := buffer
      referred := fun unreferred => absurd (queued.referred unreferred) pending
      callback := queued.callback
      accepted := by
        show state.accepted ++ [message] =
          parts.flatten ++ waiting (filled state.syslog_callbacks) (buffered ++ [message])
        rw [waiting_append last referred, queued.accepted, List.append_assoc] }

/-- One more datagram, which is sent if there is something in it. -/
theorem Queued.sent_concat (queued : Queued state parts buffered) (part : List Text) :
    (if part.flatten = [] then state.datagrams else state.datagrams ++ [part.flatten]) =
      ((parts ++ [part]).map List.flatten).filter (· ≠ []) := by
  rw [List.map_append, List.filter_append, ← queued.sent]
  by_cases empty : part.flatten = []
  · simp [empty]
  · simp [empty]

/-- A flush sends the messages that wait with the first entry. -/
theorem Queued.flush (queued : Queued state parts buffered) {appdata : Nat} {next : State}
    (flushed : syslogFlush appdata true state = some next) :
    ∃ parts buffered, Queued next parts buffered := by
  rw [syslogFlush, if_pos rfl] at flushed
  cases taken : takeSlot state.syslog_callbacks with
  | none =>
      rw [taken] at flushed
      cases flushed
      exact ⟨parts, buffered, queued⟩
  | some first =>
      obtain ⟨⟨callback, data⟩, rest⟩ := first
      have entries := filled_eq_cons_of_takeSlot taken
      have sound := queued.callback
      have accepted := queued.accepted
      rw [entries] at sound accepted
      rw [taken] at flushed
      obtain ⟨⟨text, called⟩, calls, rfl⟩ := Option.map_eq_some_iff.mp flushed
      have later : ∀ ctx ∈ filled rest, refers ctx → ctx = ⟨.syslogSendCb, .sendBuffer⟩ :=
        fun ctx inside => sound ctx (List.mem_cons_of_mem _ inside)
      cases data with
      | message message =>
          obtain ⟨rfl, rfl⟩ : message = text ∧ state = called := by
            by_cases large : message.length + 1 > appdata
            · have undefined : call appdata ⟨callback, .message message⟩ state = none := if_pos large
              rw [undefined] at calls
              cases calls
            · have defined : call appdata ⟨callback, .message message⟩ state = some (message, state) := by
                cases callback <;> exact if_neg large
              rw [defined] at calls
              exact Prod.mk.inj (Option.some.inj calls)
          refine ⟨parts ++ [[message]], buffered, ?_, queued.buffer, fun unreferred => ?_, later, ?_⟩
          · rw [← queued.sent_concat, List.flatten_singleton]
          · refine queued.referred fun ctx inside => ?_
            rcases List.mem_cons.mp (entries ▸ inside) with rfl | old
            · rfl
            · exact unreferred ctx old
          · rw [accepted, List.flatten_append, List.flatten_singleton, List.append_assoc]
            rfl
      | sendBuffer =>
          have known : callback = .syslogSendCb :=
            congrArg SyslogCallbackCtx.callback (sound _ List.mem_cons_self rfl)
          obtain ⟨rfl, rfl⟩ : state.send_buffer = text ∧ { state with send_buffer := [] } = called := by
            rw [known] at calls
            by_cases large : state.send_buffer.length + 1 > appdata
            · have undefined : call appdata ⟨.syslogSendCb, .sendBuffer⟩ state = none := if_pos large
              rw [undefined] at calls
              cases calls
            · have defined : call appdata ⟨.syslogSendCb, .sendBuffer⟩ state =
                  some (state.send_buffer, { state with send_buffer := [] }) := if_neg large
              rw [defined] at calls
              exact Prod.mk.inj (Option.some.inj calls)
          refine ⟨parts ++ [buffered], [], ?_, rfl, fun _ => rfl, later, ?_⟩
          · rw [← queued.sent_concat, ← queued.buffer]
          · rw [accepted, List.flatten_append, List.flatten_singleton, List.append_assoc]
            rfl

/-- A step that puts its message behind the others keeps the order. -/
theorem Queued.step (queued : Queued state parts buffered) {appdata : Nat} {event : Event}
    (behind : Behind state event) {next : State}
    (defined : step appdata (some state) event = some next) :
    ∃ parts buffered, Queued next parts buffered := by
  cases event with
  | send message =>
      cases defined
      by_cases small : message.length + state.send_buffer.length + 1 ≤ MAX_DYNAMIC_SYSLOG_BUFFER
      · obtain ⟨free, last⟩ := behind small
        rw [syslogSend_eq small]
        exact ⟨_, _, queued.enqueue message free last⟩
      · have refused : syslogSend message state = (false, state) := if_pos (not_le.mp small)
        rw [refused]
        exact ⟨_, _, queued⟩
  | sendf text =>
      cases defined
      obtain ⟨small, free, last⟩ := behind
      rw [syslogSendf_eq small]
      exact ⟨_, _, queued.enqueue text free last⟩
  | sendP message =>
      cases defined
      exact ⟨_, _, queued.insert_message _ message behind⟩
  | sendPtr message =>
      cases defined
      exact ⟨_, _, queued.insert_message _ message behind⟩
  | flush known =>
      cases known with
      | false =>
          cases defined
          exact ⟨_, _, queued⟩
      | true => exact queued.flush defined

/-- In a run in which every message is put behind all the others, the messages leave in the order in which they
were accepted. -/
theorem ordered_of_eachMeets (appdata : Nat) (events : List Event)
    (behind : EachMeets (step appdata) BehindIn (some start) events) :
    ∀ state, events.foldl (step appdata) (some start) = some state → Ordered state := by
  have keeps (state : Option State) (event : Event)
      (ordered : ∀ reached ∈ state, ∃ parts buffered, Queued reached parts buffered)
      (behind : BehindIn state event) :
      ∀ next ∈ step appdata state event, ∃ parts buffered, Queued next parts buffered := by
    intro next defined
    obtain ⟨reached, here, stepped⟩ := Option.bind_eq_some_iff.mp defined
    subst here
    obtain ⟨parts, buffered, queued⟩ := ordered reached rfl
    exact queued.step behind stepped
  intro state run
  have queued := behind.invariant keeps fun reached same => ⟨[], [], Option.some.inj same ▸ queued_start⟩
  obtain ⟨parts, buffered, queued⟩ := queued state run
  exact queued.ordered

/-- Two messages from the program memory, and one for the buffer after the first of them has left: it is put into
the third entry. -/
theorem ordered_of_eachMeets_three :
    EachMeets (step 500) BehindIn (some start) [.sendP [97], .send [98], .flush false, .sendPtr [99], .flush true] ∧
      ∀ state, [.sendP [97], .send [98], .flush false, .sendPtr [99], .flush true].foldl (step 500) (some start) =
        some state → Ordered state :=
  ⟨by decide,
    ordered_of_eachMeets 500 [.sendP [97], .send [98], .flush false, .sendPtr [99], .flush true] (by decide)⟩

/-- The third message takes the entry of the first one, which has left, and overtakes the second one; or it is put
into the buffer, and leaves with the first one. -/
theorem overtaken :
    (∃ state, [.sendP [97], .sendP [98], .flush true, .sendP [99], .flush true].foldl (step 500) (some start) =
        some state ∧ state.accepted = [[97], [98], [99]] ∧ state.datagrams = [[97], [99]] ∧ ¬Ordered state) ∧
      ∃ state, [.send [97], .sendP [98], .send [99], .flush true].foldl (step 500) (some start) = some state ∧
        state.accepted = [[97], [98], [99]] ∧ state.datagrams = [[97, 99]] ∧ ¬Ordered state := by
  refine ⟨⟨_, rfl, rfl, rfl, ?_⟩, _, rfl, rfl, rfl, ?_⟩
  · intro ordered
    exact absurd ordered.characters (by decide)
  · intro ordered
    exact absurd ordered.characters (by decide)

end Ethersex.Syslog
