import Ethersex.Snmp.Model
import Ethersex.Library.Identifiers

/-!
# Walks

A walk asks for the object behind an identifier, then for the one behind the object's, and so on.
The table is searched for an object whose name begins with the identifier or the other way round,
and only for the very name of an object the next one is answered.
-/

namespace Ethersex.Snmp

open Library

/-! ## What is to be answered -/

/-- The bytes of an identifier, whose first number stands for two. -/
def encode (identifier : List Nat) : List UInt8 := identifier.flatMap subidentifier

section Config

variable (c : Config) (device : Device)

def systemObjects : List (List Nat) :=
  [[43, 6, 1, 2, 1, 1, 1]] ++ (if c.WHM_SUPPORT then [[43, 6, 1, 2, 1, 1, 3]] else []) ++
    [[43, 6, 1, 2, 1, 1, 4], [43, 6, 1, 2, 1, 1, 5], [43, 6, 1, 2, 1, 1, 6]]

def locationObject : List Nat := [43, 6, 1, 2, 1, 1, 6]

def adcObject : List Nat := [43, 6, 1, 4, 1, 2021, 13, 23, 1]

/-- The objects, in the order of the table. -/
def objects : List (List Nat) := (if c.ADC_SUPPORT then [adcObject] else []) ++ systemObjects c

/-- The identifier of a variable. -/
def identifier (answer : List UInt8) : List UInt8 := (answer.drop 4).take (answer[3]?.getD 0).toNat

/-- The identifier that is answered to a request for the next one. -/
def getNext (requested : List UInt8) : Option (List UInt8) :=
  match snmpNewData (snmpReactions c device) 0xa1 0 [requested] with
  | .error _ => none
  | .ok answers => answers.head?.map identifier

/-- The next object is answered, or that there is none. -/
def Right (table : List (List Nat)) (requested : List Nat) : Option (List Nat) → Prop
  | none => ∀ object ∈ table, ¬requested < object
  | some found => IsNext table requested found

/-- The identifier of the next object is answered, or that there is none. -/
def NextAnswered (requested : List Nat) : Prop :=
  ∃ found, getNext c device (encode requested) = found.map encode ∧ Right (objects c) requested found

/-- A walk gets these answers and ends. -/
def Walks : List UInt8 → List (List UInt8) → Prop
  | requested, [] => getNext c device requested = none
  | requested, next :: visited => getNext c device requested = some next ∧ Walks next visited

/-- A walk visits every object behind its start exactly once, in increasing order, and ends. -/
def WalkComplete (requested : List Nat) : Prop :=
  ∃ visited : List (List Nat), Walks c device (encode requested) (visited.map encode) ∧
    visited.Pairwise (· < ·) ∧ ∀ object, object ∈ visited ↔ object ∈ objects c ∧ requested < object

/-! ## When it is answered -/

/-- All objects are below an identifier that does not begin with the name of one. -/
def Behind (requested : List Nat) : Prop :=
  ∀ object ∈ objects c, object < requested ∧ ¬object <+: requested

/-- The name of an object of the system begins with the identifier.  With the converter, whose object
is the first one in the table although it is the greatest, its name does not, and the identifier is
not the name of the last object of the system. -/
def InSystem (requested : List Nat) : Prop :=
  (∃ object ∈ systemObjects c, requested <+: object) ∧
    (c.ADC_SUPPORT = true → ¬requested <+: adcObject ∧ requested ≠ locationObject)

/-- Only the name of the converter's object begins with the identifier, and it is longer. -/
def InAdc (requested : List Nat) : Prop :=
  c.ADC_SUPPORT = true ∧ requested <+: adcObject ∧ requested ≠ adcObject ∧
    ∀ object ∈ systemObjects c, ¬requested <+: object

end Config

/-! ## Searching the table -/

/-- What the search answers. -/
def lookup (requested : List Nat) : List (List Nat) → Option (List Nat)
  | [] => none
  | object :: rest =>
      if requested = object then rest.head?
      else if object <+: requested then some requested
      else if requested <+: object then some object
      else lookup requested rest

variable {c : Config} {device : Device} {requested : List Nat} {table : List (List Nat)}

theorem encode_isPrefix_iff {first second : List Nat} : encode first <+: encode second ↔ first <+: second :=
  instantaneous_subidentifier.prefix_iff

theorem encode_inj {first second : List Nat} : encode first = encode second ↔ first = second :=
  instantaneous_subidentifier.flatMap_inj

/-- Comparing the shorter length finds whether one text begins with the other. -/
theorem take_eq_take_iff {first second : List UInt8} :
    (first.take (if second.length > first.length then first.length else second.length) =
      second.take (if second.length > first.length then first.length else second.length)) ↔
      first <+: second ∨ second <+: first := by
  split
  · next longer =>
      rw [List.take_length, ← List.prefix_iff_eq_take]
      exact ⟨.inl, fun either => either.resolve_right fun begins => absurd begins.length_le (by omega)⟩
  · next shorter =>
      rw [List.take_length, eq_comm, ← List.prefix_iff_eq_take]
      refine ⟨.inr, fun either => either.elim (fun begins => ?_) id⟩
      rw [begins.eq_of_length_le (by omega)]

/-- The name that is answered, with what is behind it. -/
theorem interpret_eq {reactions : List Reaction}
    (names : reactions.map Reaction.obj_name = table.map encode) :
    (interpret 0xa1 (encode requested) reactions).map (fun answer => answer.1.obj_name ++ answer.2) =
      (lookup requested table).map encode := by
  induction reactions generalizing table with
  | nil =>
      cases table with
      | nil => rfl
      | cons object rest => cases names
  | cons reaction reactions ih =>
      cases table with
      | nil => cases names
      | cons object rest =>
          obtain ⟨name, others⟩ := List.cons.inj names
          rw [interpret, lookup]
          simp only [name, take_eq_take_iff, encode_isPrefix_iff, true_and]
          have strict {first second : List Nat} (begins : first <+: second) (apart : second ≠ first) :
              (encode first).length < (encode second).length := by
            refine lt_of_le_of_ne (encode_isPrefix_iff.mpr begins).length_le fun same => apart ?_
            exact (encode_inj.mp ((encode_isPrefix_iff.mpr begins).eq_of_length same)).symm
          by_cases same : requested = object
          · subst same
            rw [if_pos (.inl List.prefix_rfl), if_pos rfl, if_pos rfl, if_neg (lt_irrefl _)]
            have heads := congrArg List.head? others
            rw [List.head?_map, List.head?_map] at heads
            rw [← heads, Option.map_map]
            simp [Function.comp_def]
          rw [if_neg same]
          by_cases longer : object <+: requested
          · have less := strict longer same
            rw [if_pos (.inr longer), if_neg less.ne', if_pos less, if_pos longer]
            obtain ⟨suffix, whole⟩ := encode_isPrefix_iff.mpr longer
            show some (reaction.obj_name ++ (encode requested).drop (encode object).length) = _
            rw [name, ← whole, List.drop_left]
            exact congrArg some whole
          rw [if_neg longer]
          by_cases shorter : requested <+: object
          · have less := strict shorter (Ne.symm same)
            rw [if_pos (.inl shorter), if_neg less.ne, if_neg (Nat.not_lt.mpr less.le), if_pos shorter]
            show some (reaction.obj_name ++ []) = _
            rw [name, List.append_nil]
            rfl
          · rw [if_neg (not_or.mpr ⟨shorter, longer⟩), if_neg shorter]
            exact ih others

theorem identifier_assemble (type : Reaction) (data : List UInt8)
    (short : (type.obj_name ++ data).length < 256) :
    identifier (assemble type data) = type.obj_name ++ data := by
  have length : (UInt8.ofNat (type.obj_name.length + data.length)).toNat =
      (type.obj_name ++ data).length := by
    rw [List.length_append] at short ⊢
    exact UInt8.toNat_ofNat_of_lt' short
  show ((type.obj_name ++ data ++ type.cb data).take (UInt8.ofNat _).toNat) = _
  rw [length, List.take_left]

theorem names_eq : (snmpReactions c device).map Reaction.obj_name = (objects c).map encode := by
  have system (k : Nat) (small : k < 128) :
      encode [43, 6, 1, 2, 1, 1, k] = [0x2b, 0x06, 0x01, 0x02, 0x01, 0x01, UInt8.ofNat k] := by
    simp [encode, subidentifier, highBytes, Nat.div_eq_of_lt small, Nat.mod_eq_of_lt small]
  have converter : encode adcObject = ethersexExperimental ++ [0x01] := by
    simp [encode, adcObject, subidentifier, highBytes, ethersexExperimental]
  rw [snmpReactions, objects, systemObjects]
  cases c.ADC_SUPPORT <;> cases c.WHM_SUPPORT <;> simp [system, converter]

theorem objects_short : ∀ object ∈ objects c, (encode object).length < 256 := by
  have names := @names_eq c ⟨0, 0, fun _ => 0⟩
  intro object inside
  have named : encode object ∈ (objects c).map encode := List.mem_map_of_mem inside
  rw [← names] at named
  obtain ⟨reaction, member, same⟩ := List.mem_map.mp named
  rw [← same]
  revert reaction
  rw [snmpReactions]
  cases c.ADC_SUPPORT <;> cases c.WHM_SUPPORT <;> simp [ethersexExperimental]

theorem lookup_mem {found : List Nat} (answered : lookup requested table = some found) :
    found ∈ table ∨ found = requested := by
  induction table with
  | nil => cases answered
  | cons object rest ih =>
      rw [lookup] at answered
      split at answered
      · exact .inl (List.mem_cons_of_mem _ (List.mem_of_mem_head? answered))
      · split at answered
        · exact .inr (Option.some.inj answered).symm
        · split at answered
          · exact .inl (Option.some.inj answered ▸ List.mem_cons_self)
          · exact (ih answered).imp_left (List.mem_cons_of_mem _)

/-- The answer is what the search finds. -/
theorem getNext_encode (short : (encode requested).length < 256) :
    getNext c device (encode requested) = (lookup requested (objects c)).map encode := by
  have found := @interpret_eq requested _ _ (@names_eq c device)
  rw [getNext, snmpNewData]
  cases search : interpret 0xa1 (encode requested) (snmpReactions c device) with
  | none =>
      rw [search] at found
      exact found
  | some answer =>
      obtain ⟨type, data⟩ := answer
      rw [search] at found
      obtain ⟨object, answered, same⟩ := Option.map_eq_some_iff.mp found.symm
      have same : encode object = type.obj_name ++ data := same
      have bound : (type.obj_name ++ data).length < 256 := by
        rw [← same]
        rcases lookup_mem answered with inside | rfl
        · exact objects_short object inside
        · exact short
      rw [answered]
      show some (identifier (assemble type data)) = some (encode object)
      rw [identifier_assemble type data bound, same]

/-! ## Sorted tables -/

theorem lookup_eq_none (apart : ∀ object ∈ table, Apart object requested) :
    lookup requested table = none := by
  induction table with
  | nil => rfl
  | cons object rest ih =>
      rw [List.forall_mem_cons] at apart
      have other : requested ≠ object := fun same => apart.1.1 (same ▸ List.prefix_rfl)
      rw [lookup, if_neg other, if_neg apart.1.1, if_neg apart.1.2]
      exact ih apart.2

/-- An object below the requested identifier does not matter for what is next. -/
theorem right_cons {object : List Nat} (below : object < requested) (found : Option (List Nat)) :
    Right (object :: table) requested found ↔ Right table requested found := by
  cases found with
  | none => exact List.forall_mem_cons.trans (and_iff_right below.asymm)
  | some found =>
      constructor
      · rintro ⟨member, greater, least⟩
        refine ⟨(List.mem_cons.mp member).resolve_left ?_, greater, ?_⟩
        · rintro rfl
          exact below.asymm greater
        · exact fun other inside => least other (List.mem_cons_of_mem _ inside)
      · rintro ⟨member, greater, least⟩
        refine ⟨List.mem_cons_of_mem _ member, greater, fun other inside more => ?_⟩
        rcases List.mem_cons.mp inside with rfl | later
        · exact absurd more below.asymm
        · exact least other later more

/-- The first object of a sorted table is the next one, if it is greater. -/
theorem isNext_head {object : List Nat} (sorted : (object :: table).Pairwise (· < ·))
    (greater : requested < object) : IsNext (object :: table) requested object where
  member := List.mem_cons_self
  greater := greater
  least other inside _ :=
    (List.mem_cons.mp inside).imp_right fun later => (List.pairwise_cons.mp sorted).1 other later

/-- In a sorted table, the next object is found for a beginning of a name and for a name, and if
there is none. -/
theorem right_lookup_iff (sorted : table.Pairwise (· < ·)) (apart : table.Pairwise Apart) :
    Right table requested (lookup requested table) ↔
      (∃ object ∈ table, requested <+: object) ∨
        ∀ object ∈ table, object < requested ∧ ¬object <+: requested := by
  induction table with
  | nil => simp [lookup, Right]
  | cons object rest ih =>
      obtain ⟨above, sortedRest⟩ := List.pairwise_cons.mp sorted
      obtain ⟨others, apartRest⟩ := List.pairwise_cons.mp apart
      rw [lookup]
      by_cases same : requested = object
      · subst same
        rw [if_pos rfl]
        refine iff_of_true ?_ (.inl ⟨requested, List.mem_cons_self, List.prefix_rfl⟩)
        cases rest with
        | nil =>
            intro object inside
            rw [List.mem_singleton.mp inside]
            exact lt_irrefl _
        | cons next rest =>
            have greater := above next List.mem_cons_self
            refine ⟨List.mem_cons_of_mem _ List.mem_cons_self, greater, fun other inside more => ?_⟩
            rcases List.mem_cons.mp inside with rfl | later
            · exact absurd more (lt_irrefl _)
            · exact (isNext_head sortedRest greater).least other later more
      rw [if_neg same]
      by_cases longer : object <+: requested
      · rw [if_pos longer]
        refine iff_of_false (fun next => lt_irrefl _ next.greater) ?_
        rintro (⟨other, inside, begins⟩ | behind)
        · rcases List.mem_cons.mp inside with rfl | later
          · exact same (begins.eq_of_length_le longer.length_le)
          · exact (others other later).1 (longer.trans begins)
        · exact (behind object List.mem_cons_self).2 longer
      rw [if_neg longer]
      by_cases shorter : requested <+: object
      · rw [if_pos shorter]
        exact iff_of_true (isNext_head sorted (lt_of_begins shorter same))
          (.inl ⟨object, List.mem_cons_self, shorter⟩)
      rw [if_neg shorter]
      rcases lt_or_gt_of_ne (Ne.symm same) with below | more
      · rw [right_cons below, ih sortedRest apartRest, List.forall_mem_cons, List.exists_mem_cons_iff]
        simp only [shorter, false_or, below, longer, not_false_iff, and_self, true_and]
      · have none : ∀ other ∈ rest, Apart other requested := by
          intro other later
          constructor
          · intro begins
            have less := (lt_of_begins begins ?_).trans more
            · exact (above other later).asymm less
            · rintro rfl
              exact (above other later).asymm more
          · intro begins
            exact more.asymm (lt_of_lt_of_begins (above other later) begins ⟨longer, shorter⟩)
        rw [lookup_eq_none none]
        refine iff_of_false (fun right => right object List.mem_cons_self more) ?_
        rintro (⟨other, inside, begins⟩ | behind)
        · rcases List.mem_cons.mp inside with rfl | later
          · exact shorter begins
          · exact (none other later).2 begins
        · exact more.asymm (behind object List.mem_cons_self).1

theorem systemObjects_sorted : (systemObjects c).Pairwise (· < ·) := by
  rw [systemObjects]
  cases c.WHM_SUPPORT <;> decide

theorem systemObjects_apart : (systemObjects c).Pairwise Apart := by
  show (systemObjects c).Pairwise fun first second => ¬first <+: second ∧ ¬second <+: first
  rw [systemObjects]
  cases c.WHM_SUPPORT <;> decide

theorem systemObjects_adc : ∀ object ∈ systemObjects c, object < adcObject ∧ Apart object adcObject := by
  show ∀ object ∈ systemObjects c, object < adcObject ∧ ¬object <+: adcObject ∧ ¬adcObject <+: object
  rw [systemObjects]
  cases c.WHM_SUPPORT <;> decide

/-! ## The table -/

theorem not_lt_of_begins {object : List Nat} (begins : requested <+: object) : ¬object < requested := by
  by_cases same : requested = object
  · rw [same]
    exact lt_irrefl _
  · exact (lt_of_begins begins same).asymm

/-- For the beginning of a name nothing is found if it is the last one. -/
theorem getLast_of_lookup_eq_none (begins : ∃ object ∈ table, requested <+: object)
    (none : lookup requested table = none) : table.getLast? = some requested := by
  induction table with
  | nil =>
      obtain ⟨_, inside, -⟩ := begins
      exact absurd inside List.not_mem_nil
  | cons object rest ih =>
      rw [lookup] at none
      split at none
      · next same =>
          rw [List.head?_eq_none_iff.mp none, same]
          rfl
      · split at none
        · cases none
        · split at none
          · cases none
          · next shorter =>
              rw [List.exists_mem_cons_iff] at begins
              rw [List.getLast?_cons, ih (begins.resolve_left shorter) none]
              rfl

theorem systemObjects_last : (systemObjects c).getLast? = some locationObject := by
  rw [systemObjects]
  cases c.WHM_SUPPORT <;> rfl

theorem lookup_locationObject : lookup locationObject (systemObjects c) = none := by
  rw [systemObjects]
  cases c.WHM_SUPPORT <;> decide

/-- Apart from the converter's object, its being there matters if there is no other one. -/
theorem right_adc (apart : Apart adcObject requested) :
    Right (adcObject :: systemObjects c) requested (lookup requested (systemObjects c)) ↔
      Right (systemObjects c) requested (lookup requested (systemObjects c)) ∧
        (lookup requested (systemObjects c) = none → adcObject < requested) := by
  have other : adcObject ≠ requested := fun same => apart.1 (same ▸ List.prefix_rfl)
  cases search : lookup requested (systemObjects c) with
  | none =>
      rw [Right, Right, List.forall_mem_cons, and_comm]
      refine and_congr_right fun _ => ?_
      exact ⟨fun least _ => lt_of_le_of_ne (not_lt.mp least) other, fun below => (below rfl).asymm⟩
  | some found =>
      have member := lookup_mem search
      constructor
      · rintro ⟨inside, greater, least⟩
        refine ⟨⟨?_, greater, fun object later => least object (List.mem_cons_of_mem _ later)⟩, ?_⟩
        · exact member.resolve_right fun same => lt_irrefl _ (same ▸ greater)
        · exact fun none => by cases none
      · rintro ⟨⟨inside, greater, least⟩, -⟩
        refine ⟨List.mem_cons_of_mem _ inside, greater, fun object either more => ?_⟩
        rcases List.mem_cons.mp either with rfl | later
        · exact .inr (systemObjects_adc found inside).1
        · exact least object later more

/-- The converter's object is next for a beginning of its name that no other name begins with. -/
theorem isNext_adc (begins : requested <+: adcObject) (other : requested ≠ adcObject) :
    IsNext (adcObject :: systemObjects c) requested adcObject ↔
      ∀ object ∈ systemObjects c, ¬requested <+: object := by
  constructor
  · intro next object inside shorter
    have greater : requested < object := by
      refine lt_of_begins shorter ?_
      rintro rfl
      exact (systemObjects_adc _ inside).2.1 begins
    rcases next.least object (List.mem_cons_of_mem _ inside) greater with rfl | more
    · exact lt_irrefl _ (systemObjects_adc _ inside).1
    · exact more.asymm (systemObjects_adc _ inside).1
  · intro none
    refine ⟨List.mem_cons_self, lt_of_begins begins other, fun object either more => ?_⟩
    refine (List.mem_cons.mp either).imp_right fun inside => absurd more ?_
    obtain ⟨below, apart, -⟩ := systemObjects_adc object inside
    exact (lt_of_lt_of_begins below begins
      ⟨fun longer => apart (longer.trans begins), none object inside⟩).asymm

/-- When the next object is answered. -/
theorem right_objects_iff :
    Right (objects c) requested (lookup requested (objects c)) ↔
      InSystem c requested ∨ InAdc c requested ∨ Behind c requested := by
  rw [InSystem, InAdc, Behind, objects]
  cases c.ADC_SUPPORT with
  | false => simp [right_lookup_iff systemObjects_sorted systemObjects_apart]
  | true =>
      simp only [if_true, List.singleton_append, true_and, forall_const, List.forall_mem_cons]
      rw [lookup]
      by_cases same : requested = adcObject
      · subst same
        have first : (systemObjects c).head? = some [43, 6, 1, 2, 1, 1, 1] := rfl
        rw [if_pos rfl, first]
        refine iff_of_false (fun next => absurd next.greater (by decide)) ?_
        simp
      rw [if_neg same]
      by_cases longer : adcObject <+: requested
      · rw [if_pos longer]
        refine iff_of_false (fun next => lt_irrefl _ next.greater) ?_
        rintro (⟨⟨object, inside, begins⟩, -⟩ | ⟨begins, -⟩ | ⟨⟨-, apart⟩, -⟩)
        · exact (systemObjects_adc object inside).2.2 (longer.trans begins)
        · exact same (begins.eq_of_length_le longer.length_le)
        · exact apart longer
      rw [if_neg longer]
      by_cases shorter : requested <+: adcObject
      · rw [if_pos shorter]
        have less := lt_of_begins shorter same
        rw [Right, isNext_adc shorter same]
        simp [shorter, same, less.asymm]
      rw [if_neg shorter, right_adc ⟨longer, shorter⟩,
        right_lookup_iff systemObjects_sorted systemObjects_apart]
      simp only [shorter, longer, not_false_iff, true_and, false_and, false_or, and_true]
      constructor
      · rintro ⟨begins | behind, rest⟩
        · refine .inl ⟨begins, ?_⟩
          rintro rfl
          exact absurd (rest lookup_locationObject) (by decide)
        · have none : lookup requested (systemObjects c) = none := lookup_eq_none fun object inside =>
            ⟨(behind object inside).2, fun begins => not_lt_of_begins begins (behind object inside).1⟩
          exact .inr ⟨rest none, behind⟩
      · rintro (⟨begins, other⟩ | ⟨greater, behind⟩)
        · refine ⟨.inl begins, fun none => absurd ?_ other⟩
          have last := getLast_of_lookup_eq_none begins none
          rw [systemObjects_last] at last
          exact (Option.some.inj last).symm
        · exact ⟨.inr behind, fun _ => greater⟩

/-! ## Walks -/

theorem nextAnswered_iff_right (short : (encode requested).length < 256) :
    NextAnswered c device requested ↔ Right (objects c) requested (lookup requested (objects c)) := by
  rw [NextAnswered, getNext_encode short]
  constructor
  · rintro ⟨found, same, right⟩
    rwa [Option.map_injective (fun _ _ => encode_inj.mp) same]
  · exact fun right => ⟨_, rfl, right⟩

/-- A complete walk begins with the right answer. -/
theorem WalkComplete.nextAnswered (complete : WalkComplete c device requested) :
    NextAnswered c device requested := by
  obtain ⟨visited, walks, sorted, all⟩ := complete
  cases visited with
  | nil =>
      exact ⟨none, walks, fun object inside more =>
        absurd ((all object).mpr ⟨inside, more⟩) List.not_mem_nil⟩
  | cons next rest =>
      obtain ⟨inside, greater⟩ := (all next).mp List.mem_cons_self
      refine ⟨some next, walks.1, inside, greater, fun other member more => ?_⟩
      exact (List.mem_cons.mp ((all other).mpr ⟨member, more⟩)).imp_right fun later =>
        (List.pairwise_cons.mp sorted).1 other later

/-- In a walk that goes up, the answer to a visited object is greater. -/
theorem Walks.lt_of_mem {start : List UInt8} {visited : List (List Nat)}
    (walks : Walks c device start (visited.map encode)) (sorted : visited.Pairwise (· < ·))
    {object next : List Nat} (inside : object ∈ visited)
    (answered : getNext c device (encode object) = some (encode next)) : object < next := by
  induction visited generalizing start with
  | nil => exact absurd inside List.not_mem_nil
  | cons first rest ih =>
      rcases List.mem_cons.mp inside with rfl | later
      · cases rest with
        | nil =>
            have ended : getNext c device (encode object) = none := walks.2
            rw [ended] at answered
            cases answered
        | cons second rest =>
            have follows : getNext c device (encode object) = some (encode second) := walks.2.1
            rw [follows] at answered
            rw [← encode_inj.mp (Option.some.inj answered)]
            exact (List.pairwise_cons.mp sorted).1 second List.mem_cons_self
      · exact ih walks.2 (List.pairwise_cons.mp sorted).2 later

/-- The name of an object finds the next one in the table. -/
theorem lookup_append {front rest : List (List Nat)} {object : List Nat}
    (apart : (front ++ object :: rest).Pairwise Apart) :
    lookup object (front ++ object :: rest) = rest.head? := by
  induction front with
  | nil => exact if_pos rfl
  | cons first front ih =>
      rw [List.cons_append, List.pairwise_cons] at apart
      have others := apart.1 object (List.mem_append_right _ List.mem_cons_self)
      have other : object ≠ first := by
        rintro rfl
        exact others.1 List.prefix_rfl
      rw [List.cons_append, lookup, if_neg other, if_neg others.1, if_neg others.2]
      exact ih apart.2

/-- Without the converter's object, a walk from a name visits the rest of the table. -/
theorem walks_rest (apart : (objects c).Pairwise Apart) {front rest : List (List Nat)}
    {object : List Nat} (table : objects c = front ++ object :: rest) :
    Walks c device (encode object) (rest.map encode) := by
  have answer : getNext c device (encode object) = rest.head?.map encode := by
    have inside : object ∈ objects c := by simp [table]
    rw [getNext_encode (objects_short object inside), table, lookup_append (table ▸ apart)]
  cases rest with
  | nil => exact answer
  | cons next rest => 
      have further : objects c = (front ++ [object]) ++ next :: rest := by simp [table]
      exact ⟨answer, walks_rest apart further⟩

/-- Where a sorted table answers the next object, walks are complete. -/
theorem walkComplete_of_right (sorted : (objects c).Pairwise (· < ·))
    (apart : (objects c).Pairwise Apart) (short : (encode requested).length < 256)
    (right : Right (objects c) requested (lookup requested (objects c))) :
    WalkComplete c device requested := by
  have answer : getNext c device (encode requested) = _ := getNext_encode short
  cases search : lookup requested (objects c) with
  | none =>
      rw [search] at right answer
      refine ⟨[], answer, List.Pairwise.nil, fun object => ?_⟩
      exact iff_of_false List.not_mem_nil fun inside => right object inside.1 inside.2
  | some found =>
      rw [search] at right answer
      obtain ⟨front, rest, table⟩ := List.append_of_mem right.member
      have ordered := table ▸ sorted
      obtain ⟨-, behind, before⟩ := List.pairwise_append.mp ordered
      refine ⟨found :: rest, ⟨answer, walks_rest apart table⟩, behind, fun object => ?_⟩
      constructor
      · intro inside
        refine ⟨by simp [table, List.mem_cons.mp inside], ?_⟩
        rcases List.mem_cons.mp inside with rfl | later
        · exact right.greater
        · exact right.greater.trans ((List.pairwise_cons.mp behind).1 object later)
      · rintro ⟨inside, greater⟩
        rcases List.mem_append.mp (table ▸ inside) with early | late
        · rcases right.least object inside greater with rfl | more
          · exact List.mem_cons_self
          · exact absurd more (before object early found List.mem_cons_self).asymm
        · exact late

theorem objects_of_not_adc (adc : c.ADC_SUPPORT = false) : objects c = systemObjects c := by
  simp [objects, adc]

/-- Behind all objects there is nothing to visit. -/
theorem walkComplete_of_behind (short : (encode requested).length < 256) (behind : Behind c requested) :
    WalkComplete c device requested := by
  have none : lookup requested (objects c) = none := lookup_eq_none fun object inside =>
    ⟨(behind object inside).2, fun begins => not_lt_of_begins begins (behind object inside).1⟩
  have answer : getNext c device (encode requested) = _ := getNext_encode short
  rw [none] at answer
  refine ⟨[], answer, List.Pairwise.nil, fun object => ?_⟩
  exact iff_of_false List.not_mem_nil fun inside => (behind object inside.1).1.asymm inside.2

/-- With the converter's object, a walk that comes to it begins again. -/
theorem not_walkComplete_of_lt_adc (adc : c.ADC_SUPPORT = true) (before : requested < adcObject) :
    ¬WalkComplete c device requested := by
  rintro ⟨visited, walks, sorted, all⟩
  have inside : adcObject ∈ visited := (all _).mpr ⟨by simp [objects, adc], before⟩
  have answered : getNext c device (encode adcObject) = some (encode [43, 6, 1, 2, 1, 1, 1]) := by
    rw [getNext_encode (objects_short (c := c) _ (by simp [objects, adc])), objects, adc]
    rfl
  exact absurd (walks.lt_of_mem sorted inside answered) (by decide)

/-- When the next object is answered, and when walks are complete. -/
theorem getNext_iff (short : (encode requested).length < 256) :
    (NextAnswered c device requested ↔ InSystem c requested ∨ InAdc c requested ∨ Behind c requested) ∧
      (WalkComplete c device requested ↔
        (c.ADC_SUPPORT = false ∧ ∃ object ∈ systemObjects c, requested <+: object) ∨
          Behind c requested) := by
  have answered : NextAnswered c device requested ↔ _ :=
    (nextAnswered_iff_right short).trans right_objects_iff
  refine ⟨answered, fun complete => ?_, ?_⟩
  · rcases answered.mp complete.nextAnswered with
      ⟨⟨object, inside, begins⟩, -⟩ | ⟨adc, begins, other, -⟩ | behind
    · cases adc : c.ADC_SUPPORT with
      | false => exact .inl ⟨rfl, object, inside, begins⟩
      | true =>
          have atMost := not_lt.mp (not_lt_of_begins begins)
          have below := atMost.trans_lt (systemObjects_adc object inside).1
          exact absurd complete (not_walkComplete_of_lt_adc adc below)
    · exact absurd complete (not_walkComplete_of_lt_adc adc (lt_of_begins begins other))
    · exact .inr behind
  · rintro (⟨adc, begins⟩ | behind)
    · have right : Right (objects c) requested (lookup requested (objects c)) :=
        right_objects_iff.mpr (.inl ⟨begins, fun on => absurd on (by simp [adc])⟩)
      have only := objects_of_not_adc adc
      exact walkComplete_of_right (only ▸ systemObjects_sorted) (only ▸ systemObjects_apart) short right
    · exact walkComplete_of_behind short behind

/-- Neither option, and no texts. -/
def plain : Config := ⟨false, false, [], [], [], [], 8⟩

def silent : Device := ⟨0, 0, fun _ => 0⟩

/-- From the beginning of all names. -/
theorem getNext_iff_start :
    (NextAnswered plain silent [43, 6, 1] ↔
        InSystem plain [43, 6, 1] ∨ InAdc plain [43, 6, 1] ∨ Behind plain [43, 6, 1]) ∧
      (WalkComplete plain silent [43, 6, 1] ↔
        (plain.ADC_SUPPORT = false ∧ ∃ object ∈ systemObjects plain, [43, 6, 1] <+: object) ∨
          Behind plain [43, 6, 1]) :=
  getNext_iff (by simp [encode, subidentifier, highBytes])

/-- The instance of an object is answered to a request for what follows it. -/
theorem not_nextAnswered :
    ¬∀ (c : Config) (device : Device) (requested : List Nat), (encode requested).length < 256 →
      NextAnswered c device requested := by
  intro always
  have short : (encode [43, 6, 1, 2, 1, 1, 1, 0]).length < 256 := by
    simp [encode, subidentifier, highBytes]
  have right := (nextAnswered_iff_right short).mp (always plain ⟨0, 0, fun _ => 0⟩ _ short)
  have answered : lookup [43, 6, 1, 2, 1, 1, 1, 0] (objects plain) =
      some [43, 6, 1, 2, 1, 1, 1, 0] := by decide
  rw [answered] at right
  exact lt_irrefl _ right.greater

end Ethersex.Snmp
