import Mathlib
import Ethersex.Httpd.Auth

/-!
# A request is served to who is authorized

What the server makes of a header whose line has arrived does not change when more of the stream
arrives.  So a connection goes through three phases: nothing has arrived, the header is not there yet,
and the decision was made as the stream says.
-/

namespace Ethersex.Httpd.Auth

open Library

/-! ## Growing texts -/

/-- Whether a text with an end begins with a pattern without it does not depend on what is behind. -/
theorem isPrefix_append_iff {α : Type*} {pattern text : List α} {ch : α} (ends : ch ∈ text)
    (inside : ch ∉ pattern) (more : List α) : pattern <+: text ++ more ↔ pattern <+: text := by
  refine ⟨fun begins => ?_, fun begins => begins.trans (List.prefix_append _ _)⟩
  rcases List.prefix_or_prefix_of_prefix begins (List.prefix_append text more) with short | long
  · exact short
  · exact absurd (long.subset ends) inside

theorem drop_append_of_mem {α : Type*} {text : List α} {ch : α} {count : Nat} (member : ch ∈ text.drop count)
    (more : List α) : (text ++ more).drop count = text.drop count ++ more := by
  refine List.drop_append_of_le_length ?_
  have := List.length_pos_of_mem member
  rw [List.length_drop] at this
  omega

theorem take_sub_append {α : Type*} (text rest more : List α) :
    (text ++ more).take ((text ++ more).length - (rest ++ more).length) =
      text.take (text.length - rest.length) := by
  rw [List.length_append, List.length_append, Nat.add_sub_add_right]
  exact List.take_append_of_le_length (Nat.sub_le _ _)

theorem strstr_length_le {α : Type*} [DecidableEq α] {pattern text found : List α}
    (occurs : strstr pattern text = some found) : found.length ≤ text.length := by
  obtain ⟨front, rfl, -⟩ := strstr_eq_some occurs
  rw [List.length_append]
  exact Nat.le_add_left _ _

/-! ## The request line -/

variable {segment text more start filename found stream stale : List UInt8}

theorem request_append (parsed : request text = some (filename, start)) (more : List UInt8) :
    request (text ++ more) = some (filename, start ++ more) := by
  rw [request] at parsed
  split at parsed
  next isGet =>
    obtain ⟨ptr, space, value⟩ := Option.map_eq_some_iff.mp parsed
    obtain ⟨rfl, rfl⟩ := Prod.mk.inj value
    have member : 32 ∈ text.drop 5 := by
      by_contra absent
      rw [strstr_singleton_eq_none.mpr absent] at space
      exact nomatch space
    have long : 5 ≤ text.length := by
      have := List.length_pos_of_mem member
      rw [List.length_drop] at this
      omega
    have grown : IsGet (text ++ more) := by
      rw [IsGet, List.take_append_of_le_length long]
      exact isGet
    obtain ⟨ptr, rfl⟩ : ∃ rest, ptr = 32 :: rest := by
      obtain ⟨-, -, rest, begins⟩ := strstr_eq_some space
      exact ⟨rest, begins.symm⟩
    rw [request, if_pos grown, drop_append_of_mem member, strstr_append space, Option.map_some,
      take_sub_append]
    rfl
  · exact nomatch parsed

theorem request_eq_none_append (line : HasRequestLine text) (absent : request text = none) (more : List UInt8) :
    request (text ++ more) = none := by
  rw [request, if_neg]
  have isNot : ¬IsGet text := by
    intro isGet
    rw [request, if_pos isGet, Option.map_eq_none_iff, strstr_singleton_eq_none] at absent
    exact absent (line.1 isGet)
  intro isGet
  refine line.2 isNot ?_
  rw [IsGet, List.take_append, List.map_append] at isGet
  by_cases long : 5 ≤ text.length
  · rw [Nat.sub_eq_zero_of_le long, List.take_zero, List.map_nil, List.append_nil] at isGet
    exact absurd isGet isNot
  · rw [List.take_of_length_le (by omega)] at isGet
    exact ⟨_, isGet⟩

theorem length_of_request (parsed : request text = some (filename, start)) : 6 ≤ text.length := by
  rw [request] at parsed
  split at parsed
  · obtain ⟨ptr, space, -⟩ := Option.map_eq_some_iff.mp parsed
    have short := strstr_length_le space
    obtain ⟨-, -, rest, begins⟩ := strstr_eq_some space
    have : ptr.length = rest.length + 1 := by rw [← begins]; simp
    rw [List.length_drop] at short
    omega
  · exact nomatch parsed

/-- What is behind the request line is the end of the text. -/
theorem start_suffix (parsed : request text = some (filename, start)) : ∃ line, text = line ++ start := by
  rw [request] at parsed
  split at parsed
  · obtain ⟨ptr, space, value⟩ := Option.map_eq_some_iff.mp parsed
    obtain ⟨-, rfl⟩ := Prod.mk.inj value
    obtain ⟨front, split, -⟩ := strstr_eq_some space
    have suffix : ptr.tail <:+ text :=
      (List.tail_suffix ptr).trans ((split ▸ List.suffix_append front ptr).trans (List.drop_suffix 5 text))
    obtain ⟨line, whole⟩ := suffix
    exact ⟨line, whole.symm⟩
  · exact nomatch parsed

/-! ## Credentials -/

variable {config : Config} {credentials : List UInt8}

/-- The two comparisons accept what begins with the right credentials. -/
theorem accepts_iff : Accepts config credentials ↔ config.username ++ config.password <+: credentials := by
  have password : strncmp (cString config.password) (cString (credentials.drop config.username.length))
      config.password.length = 0 ↔ config.password <+: credentials.drop config.username.length := by
    rw [strncmp_eq_zero_iff, eq_comm, ← strncmp_eq_zero_iff]
    exact strncmp_length_eq_zero_iff config.secret _
  rw [Accepts, strncmp_length_eq_zero_iff config.named, password]
  constructor
  · rintro ⟨⟨rest, rfl⟩, begins⟩
    rw [List.drop_left] at begins
    exact (List.prefix_append_right_inj _).mpr begins
  · rintro ⟨rest, rfl⟩
    rw [List.append_assoc, List.drop_left]
    exact ⟨List.prefix_append _ _, List.prefix_append _ _⟩

theorem token_append (ends : token found = some credentials) (more : List UInt8) :
    token (found ++ more) = some credentials := by
  obtain ⟨nl, occurs, rfl⟩ := Option.map_eq_some_iff.mp ends
  have member : 10 ∈ found.drop 21 := by
    by_contra absent
    rw [strstr_singleton_eq_none.mpr absent] at occurs
    exact nomatch occurs
  rw [token, drop_append_of_mem member, strstr_append occurs, Option.map_some,
    take_sub_append]

/-- The end of the line is behind `Basic `. -/
theorem exists_token (complete : 10 ∈ found.drop 15) (begins : basic <+: found.drop 15) :
    ∃ credentials, token found = some credentials := by
  obtain ⟨rest, split⟩ := begins
  have behind : found.drop 21 = rest := by
    have : found.drop 21 = (found.drop 15).drop 6 := by rw [List.drop_drop]
    rw [this, ← split]
    rfl
  have member : 10 ∈ rest := by
    rw [← split, List.mem_append] at complete
    exact complete.resolve_left (by decide)
  cases occurs : strstr [10] rest with
  | none => exact absurd member (strstr_singleton_eq_none.mp occurs)
  | some nl => exact ⟨_, by rw [token, behind, occurs]; rfl⟩

/-- A header whose line has arrived stays as it is. -/
theorem authorizedAt_append (complete : 10 ∈ found.drop 15) (more : List UInt8) :
    AuthorizedAt config (found ++ more) ↔ AuthorizedAt config found := by
  rw [AuthorizedAt, AuthorizedAt, drop_append_of_mem complete, isPrefix_append_iff complete (by decide)]
  refine and_congr_right fun begins => ?_
  obtain ⟨credentials, ends⟩ := exists_token complete begins
  rw [token_append ends, ends]

/-- What the client has sent when it is authorized. -/
theorem AuthorizedAt.split (begins : authorization <+: found) (authorized : AuthorizedAt config found) :
    ∃ credentials back, found = authorization ++ basic ++ credentials ++ [10] ++ back ∧
      config.decode credentials = config.username ++ config.password := by
  obtain ⟨method, credentials, ends, right⟩ := authorized
  obtain ⟨nl, occurs, rfl⟩ := Option.map_eq_some_iff.mp ends
  obtain ⟨rest, rfl⟩ := begins
  rw [show (authorization ++ rest).drop 15 = rest from List.drop_left' rfl] at method
  obtain ⟨line, rfl⟩ := method
  have behind : (authorization ++ (basic ++ line)).drop 21 = line := by
    rw [← List.append_assoc]
    exact List.drop_left' rfl
  rw [behind] at occurs right
  obtain ⟨front, split, back, begins⟩ := strstr_eq_some occurs
  refine ⟨front, back, ?_, ?_⟩
  · rw [split, ← begins]
    simp only [List.append_assoc]
  · rw [← right, split, List.length_append, Nat.add_sub_cancel, List.take_left]

/-! ## The decision -/

/-- The handler does not depend on the flag, and the flag stays as it is. -/
theorem afterAuth_eq (config : Config) (filename : List UInt8) (reparse : Bool) :
    afterAuth config filename ⟨none, reparse⟩ =
      ⟨(afterAuth config filename ⟨none, false⟩).handler, reparse⟩ := by
  simp only [afterAuth]
  split_ifs <;> rfl

/-- The code accepts a complete line if it is right. -/
theorem accepts_of_complete (complete : LineComplete config found) (ends : token found = some credentials) :
    Accepts config (config.decode credentials) ↔ config.decode credentials = config.username ++ config.password := by
  constructor
  · intro accepts
    refine (accepts_iff.mp accepts).eq_of_length_le ?_ |>.symm
    rw [List.length_append]
    exact complete.2 credentials ends accepts
  · intro right
    rw [accepts_iff, right]

variable {state : State} {name : Option (List UInt8)}

theorem startAuth_authorized (occurs : strstr authorization start = some found) (complete : LineComplete config found)
    (authorized : AuthorizedAt config found) :
    startAuth config name start state =
      if state.headerReparse then some { state with headerReparse := false }
      else name.map fun filename => afterAuth config filename state := by
  obtain ⟨method, credentials, ends, right⟩ := authorized
  rw [startAuth, occurs]
  dsimp only
  rw [if_neg (not_not_intro method), ends]
  dsimp only
  rw [if_neg (not_not_intro ((accepts_of_complete complete ends).mpr right))]

theorem startAuth_refused (occurs : strstr authorization start = some found) (complete : LineComplete config found)
    (refused : ¬AuthorizedAt config found) : startAuth config name start state = some authFailed := by
  rw [startAuth, occurs]
  dsimp only
  by_cases method : basic <+: found.drop 15
  · obtain ⟨credentials, ends⟩ := exists_token complete.1 method
    rw [if_neg (not_not_intro method), ends]
    dsimp only
    refine if_pos fun accepts => refused ⟨method, credentials, ends, ?_⟩
    exact (accepts_of_complete complete ends).mp accepts
  · exact if_pos method

theorem startAuth_absent (absent : strstr authorization start = none)
    (ends : (strstr crlfcrlf start).isSome ∨ Splits config start) :
    startAuth config name start state = some authFailed := by
  rw [startAuth, absent]
  dsimp only
  split
  · rfl
  next unfinished => exact if_pos (ends.resolve_left unfinished)

/-- The string in the buffer is the segment. -/
theorem Delimited.text_eq (delimited : Delimited segment stale) :
    (segment ++ stale).takeWhile (· ≠ 0) = segment := by
  rw [List.takeWhile_append_of_pos (by simpa using delimited.1)]
  cases stale with
  | nil => simp
  | cons first rest =>
      rw [List.takeWhile_cons_of_neg (by simpa using delimited.2), List.append_nil]

/-! ## What a stream asks for -/

theorem authorized_iff (occurs : strstr authorization start = some found) :
    Authorized config start ↔ AuthorizedAt config found := by
  rw [Authorized, occurs]
  constructor
  · rintro ⟨_, same, authorized⟩
    cases same
    exact authorized
  · exact fun authorized => ⟨found, rfl, authorized⟩

theorem not_authorized (absent : strstr authorization start = none) : ¬Authorized config start := by
  rintro ⟨_, occurs, -⟩
  rw [absent] at occurs
  exact nomatch occurs

theorem grants_iff (parsed : request stream = some (filename, start)) :
    Grants config stream ↔
      Serves (afterAuth config filename ⟨none, false⟩).handler ∧ Authorized config start := by
  rw [Grants, parsed]
  constructor
  · rintro ⟨_, _, same, grants⟩
    cases same
    exact grants
  · exact fun grants => ⟨filename, start, rfl, grants⟩

theorem not_grants (absent : request stream = none) : ¬Grants config stream := by
  rintro ⟨_, _, parsed, -⟩
  rw [absent] at parsed
  exact nomatch parsed

/-- The first `Authorization: ` of a stream has come with its line, or there is no request line. -/
def Settled (stream : List UInt8) : Prop :=
  (∀ more, request (stream ++ more) = none) ∨
    ∃ filename start, request stream = some (filename, start) ∧
      ∀ found, strstr authorization start = some found → 10 ∈ found.drop 15

theorem settled_of_absent (parsed : request stream = some (filename, start))
    (absent : strstr authorization start = none) : Settled stream := by
  refine Or.inr ⟨filename, start, parsed, fun found occurs => ?_⟩
  rw [absent] at occurs
  exact nomatch occurs

theorem settled_of_complete (parsed : request stream = some (filename, start))
    (occurs : strstr authorization start = some found) (complete : 10 ∈ found.drop 15) : Settled stream := by
  refine Or.inr ⟨filename, start, parsed, fun other again => ?_⟩
  cases occurs.symm.trans again
  exact complete

/-- The segment brings no `Authorization: ` when there was none. -/
def BringsNone (stream segment : List UInt8) : Prop :=
  ∀ filename start, request stream = some (filename, start) → strstr authorization start = none →
    strstr authorization (start ++ segment) = none

theorem Settled.append (settled : Settled stream) (brings : BringsNone stream segment) :
    Settled (stream ++ segment) ∧ (Grants config (stream ++ segment) ↔ Grants config stream) := by
  rcases settled with never | ⟨filename, start, parsed, complete⟩
  · refine ⟨Or.inl fun more => ?_, ?_⟩
    · rw [List.append_assoc]
      exact never _
    · have absent := never []
      rw [List.append_nil] at absent
      exact iff_of_false (not_grants (never segment)) (not_grants absent)
  · have grown := request_append parsed segment
    rw [grants_iff grown, grants_iff parsed]
    cases occurs : strstr authorization start with
    | none =>
        have absent := brings filename start parsed occurs
        refine ⟨settled_of_absent grown absent, and_congr_right fun _ => ?_⟩
        exact iff_of_false (not_authorized absent) (not_authorized occurs)
    | some found =>
        have line := complete found occurs
        have later := strstr_append occurs segment
        refine ⟨settled_of_complete grown later ?_, ?_⟩
        · rw [drop_append_of_mem line]
          exact List.mem_append_left _ line
        · rw [authorized_iff later, authorized_iff occurs, authorizedAt_append line]

/-! ## The phases of a connection -/

/-- Nothing has arrived; the header has not; or the decision is made. -/
inductive Phase (config : Config) : Connection → Prop
  | fresh : Phase config Connection.start
  | pending {filename start stream : List UInt8} (parsed : request stream = some (filename, start))
      (absent : strstr authorization start = none) :
      Phase config ⟨⟨(afterAuth config filename ⟨none, false⟩).handler, true⟩, stream, false⟩
  | decided {handler : Option Handler} {stream : List UInt8} {served : Bool} (settled : Settled stream) (arrived : stream ≠ [])
      (agrees : served = true ↔ Grants config stream) (running : Serves handler → served = true) :
      Phase config ⟨⟨handler, false⟩, stream, served⟩

/-- A handler runs as soon as it is chosen. -/
theorem phase_handle {handler : Option Handler} (settled : Settled stream) (arrived : stream ≠ [])
    (serves : Serves handler ↔ Grants config stream) :
    Phase config (Connection.handle ⟨⟨handler, false⟩, stream, false⟩) := by
  rw [Connection.handle]
  by_cases given : Serves handler
  · rw [if_pos ⟨given, rfl⟩]
    exact .decided settled arrived (iff_of_true rfl (serves.mp given)) fun _ => rfl
  · rw [if_neg fun both => given both.1]
    exact .decided settled arrived (iff_of_false nofun fun grants => given (serves.mpr grants))
      fun other => absurd other given

theorem Phase.handle_eq {c : Connection} (phase : Phase config c) : c.handle = c := by
  cases phase with
  | fresh => rfl
  | pending parsed absent =>
      rw [Connection.handle]
      exact if_neg nofun
  | @decided handler stream served settled arrived agrees running =>
      rw [Connection.handle]
      split
      next given => rw [running given.1]
      · rfl

/-- Whether something was given away is what the stream says. -/
theorem Phase.served_iff {c : Connection} (phase : Phase config c) : c.served = true ↔ Grants config c.stream := by
  cases phase with
  | fresh => exact iff_of_false nofun (not_grants (by decide))
  | pending parsed absent =>
      refine iff_of_false nofun ?_
      rw [grants_iff parsed]
      exact fun grants => not_authorized absent grants.2
  | decided settled arrived agrees running => exact agrees

/-- The first segment. -/
theorem fresh_step (delimited : Delimited segment stale) (line : HasRequestLine segment)
    (complete : ∀ filename start, request segment = some (filename, start) →
      (∀ found, strstr authorization start = some found → LineComplete config found) ∧
        (strstr authorization start = none → (strstr crlfcrlf start).isSome ∨ ¬Splits config start)) :
    ∃ state, httpdHandleInput config segment stale ⟨none, false⟩ = some state ∧
      Phase config (Connection.handle ⟨state, segment, false⟩) := by
  rw [httpdHandleInput, delimited.text_eq]
  dsimp only
  rw [if_neg Bool.false_ne_true]
  have arrived : segment ≠ [] := by
    rintro rfl
    exact line.2 (by decide) List.nil_prefix
  cases parsed : request segment with
  | none =>
      have never : Settled segment := Or.inl fun more => request_eq_none_append line parsed more
      refine ⟨⟨some .badRequest, false⟩, ?_, phase_handle never arrived ?_⟩
      · split <;> rfl
      · exact iff_of_false (by decide) (not_grants parsed)
  | some both =>
      obtain ⟨filename, start⟩ := both
      obtain ⟨found_complete, none_ends⟩ := complete filename start parsed
      rw [if_neg (Nat.not_lt.mpr (length_of_request parsed))]
      dsimp only
      cases occurs : strstr authorization start with
      | none =>
          by_cases ends : (strstr crlfcrlf start).isSome
          · have settled := settled_of_absent parsed occurs
            refine ⟨_, startAuth_absent occurs (Or.inl ends), phase_handle settled arrived ?_⟩
            rw [grants_iff parsed]
            exact iff_of_false (by decide) fun grants => not_authorized occurs grants.2
          · have phase : Phase config _ := .pending parsed occurs
            refine ⟨afterAuth config filename ⟨none, true⟩, ?_, ?_⟩
            · rw [startAuth, occurs]
              dsimp only
              rw [if_neg ends, if_neg ((none_ends occurs).resolve_left ends), Option.map_some]
            · rw [afterAuth_eq, phase.handle_eq]
              exact phase
      | some found =>
          have lineComplete := found_complete found occurs
          have settled := settled_of_complete parsed occurs lineComplete.1
          by_cases authorized : AuthorizedAt config found
          · refine ⟨⟨(afterAuth config filename ⟨none, false⟩).handler, false⟩, ?_, phase_handle settled arrived ?_⟩
            · rw [startAuth_authorized occurs lineComplete authorized, if_neg Bool.false_ne_true, Option.map_some,
                afterAuth_eq]
            · rw [grants_iff parsed, authorized_iff occurs]
              exact (and_iff_left authorized).symm
          · refine ⟨_, startAuth_refused occurs lineComplete authorized, phase_handle settled arrived ?_⟩
            rw [grants_iff parsed, authorized_iff occurs]
            exact iff_of_false (by decide) fun grants => authorized grants.2

/-- The segment behind a first one without the header. -/
theorem pending_step {handler : Option Handler} (parsed : request stream = some (filename, start))
    (chosen : handler = (afterAuth config filename ⟨none, false⟩).handler)
    (delimited : Delimited segment stale)
    (complete : ∀ found, strstr authorization segment = some found → LineComplete config found)
    (ends : strstr authorization segment = none → (strstr crlfcrlf segment).isSome ∨ Splits config segment)
    (whole : strstr authorization (start ++ segment) = strstr authorization segment) :
    ∃ state, httpdHandleInput config segment stale ⟨handler, true⟩ = some state ∧
      Phase config (Connection.handle ⟨state, stream ++ segment, false⟩) := by
  rw [httpdHandleInput, delimited.text_eq]
  dsimp only
  rw [if_pos rfl]
  have grown := request_append parsed segment
  have arrived : stream ++ segment ≠ [] := by
    intro empty
    rw [(List.append_eq_nil_iff.mp empty).1] at parsed
    exact absurd parsed (by simp [request, IsGet, get])
  cases occurs : strstr authorization segment with
  | none =>
      rw [occurs] at whole
      have settled := settled_of_absent grown whole
      refine ⟨_, startAuth_absent occurs (ends occurs), phase_handle settled arrived ?_⟩
      rw [grants_iff grown]
      exact iff_of_false (by decide) fun grants => not_authorized whole grants.2
  | some found =>
      rw [occurs] at whole
      have lineComplete := complete found occurs
      have settled := settled_of_complete grown whole lineComplete.1
      by_cases authorized : AuthorizedAt config found
      · refine ⟨⟨handler, false⟩, ?_, phase_handle settled arrived ?_⟩
        · rw [startAuth_authorized occurs lineComplete authorized, if_pos rfl]
        · rw [grants_iff grown, authorized_iff whole, chosen]
          exact (and_iff_left authorized).symm
      · refine ⟨_, startAuth_refused occurs lineComplete authorized, phase_handle settled arrived ?_⟩
        rw [grants_iff grown, authorized_iff whole]
        exact iff_of_false (by decide) fun grants => authorized grants.2

theorem phase_step {c : Connection} {event : Event} (phase : Phase config c) (meets : Meets config c event) :
    ∃ next, c.step config event = some next ∧ Phase config next := by
  cases event with
  | other => exact ⟨c.handle, rfl, by rwa [phase.handle_eq]⟩
  | segment segment stale =>
      rw [Meets] at meets
      rw [Connection.step]
      dsimp only
      cases phase with
      | fresh =>
          rw [if_neg (by decide), if_pos (show Connection.start.state.handler = none from rfl)] at meets
          obtain ⟨delimited, -, line, complete⟩ := meets
          obtain ⟨state, handled, phase⟩ := fresh_step delimited line complete
          rw [if_pos (Or.inl (show Connection.start.state.handler = none from rfl))]
          exact ⟨_, Option.map_eq_some_iff.mpr ⟨state, handled, rfl⟩, phase⟩
      | pending parsed absent =>
          rw [if_pos rfl] at meets
          obtain ⟨delimited, complete, ends, whole⟩ := meets
          obtain ⟨state, handled, phase⟩ :=
            pending_step parsed rfl delimited complete ends (whole _ _ parsed)
          rw [if_pos (Or.inr rfl)]
          exact ⟨_, Option.map_eq_some_iff.mpr ⟨state, handled, rfl⟩, phase⟩
      | @decided handler stream served settled arrived agrees running =>
          rw [if_neg Bool.false_ne_true] at meets
          by_cases unset : handler = none
          · rw [if_pos unset] at meets
            exact absurd meets.2.1 arrived
          · rw [if_neg unset] at meets
            obtain ⟨later, same⟩ : Settled _ ∧ (Grants config _ ↔ Grants config _) := settled.append meets
            have phase : Phase config ⟨⟨handler, false⟩, stream ++ segment, served⟩ :=
              .decided later (List.append_ne_nil_of_left_ne_nil arrived _) (agrees.trans same.symm) running
            rw [if_neg (not_or.mpr ⟨unset, Bool.false_ne_true⟩)]
            exact ⟨_, rfl, by rwa [phase.handle_eq]⟩

theorem phase_run {c : Connection} {events : List Event} (phase : Phase config c) (conforms : Conforms config events c) :
    ∃ next, c.run config events = some next ∧ Phase config next := by
  induction events generalizing c with
  | nil => exact ⟨c, rfl, phase⟩
  | cons event rest ih =>
      obtain ⟨next, stepped, phase⟩ := phase_step phase conforms.1
      obtain ⟨last, ran, phase⟩ := ih phase (conforms.2 next stepped)
      exact ⟨last, by rw [Connection.run, stepped, Option.bind_some, ran], phase⟩

theorem Grants.split (grants : Grants config stream) :
    ∃ front credentials back, stream = front ++ authorization ++ basic ++ credentials ++ [10] ++ back ∧
      config.decode credentials = config.username ++ config.password := by
  obtain ⟨filename, start, parsed, -, found, occurs, authorized⟩ := grants
  obtain ⟨front, rfl, begins⟩ := strstr_eq_some occurs
  obtain ⟨credentials, back, rfl, right⟩ := authorized.split begins
  obtain ⟨line, rfl⟩ := start_suffix parsed
  refine ⟨line ++ front, credentials, back, ?_, right⟩
  simp only [List.append_assoc]

/-- `GET /a HTTP/1.0` and `Authorization: Basic `. -/
def opening : List UInt8 :=
  [71, 69, 84, 32, 47, 97, 32, 72, 84, 84, 80, 47, 49, 46, 48] ++ crlf ++ authorization ++ basic

/-- User `u`, password `p`; `dTpw` is `u:p`, and `dTpweA==` is `u:px`. -/
def smallServer : Config where
  username := [117, 58]
  password := [112]
  decode text :=
    if text = [100, 84, 112, 119, 13] then [117, 58, 112]
    else if text = [100, 84, 112, 119, 101, 65, 61, 61, 13] then [117, 58, 112, 120]
    else []
  ram := fun _ => 0
  vfsOpen _ := true
  ecmdSetup _ := true
  named := by simp
  secret := by simp

end Ethersex.Httpd.Auth
