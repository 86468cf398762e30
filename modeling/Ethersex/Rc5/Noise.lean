import Mathlib
import Ethersex.Rc5.Decoding

/-!
# RC5 noise rejection

A burst is the list of timer counts at the edges between two timer overflows.
This module says which bursts make the overflow handler deliver a command.  The
half-bit and edge counters have eight bits, so a long burst is judged by its
half-bits modulo 256, and the gap in front of every 256th edge is not judged at
all.  `rejectsNoise_iff` states exactly for which interrupt sequences this makes
no difference.
-/

namespace Ethersex.Rc5

open Library

/-- Timer counts at the edges since the last overflow (or since reset). -/
def burst (interrupts : List Interrupt) : List UInt8 :=
  interrupts.foldl
    (fun counts interrupt =>
      match interrupt with
      | .edge counter => counts ++ [counter]
      | .overflow => [])
    []

/-- An in-tolerance interval of one or two half-bits. -/
def Measures (fCpu halfbits : Nat) (counter : UInt8) : Prop :=
  (halfbits = 1 ∨ halfbits = 2) ∧ Tolerated fCpu halfbits counter

instance (fCpu halfbits : Nat) (counter : UInt8) :
    Decidable (Measures fCpu halfbits counter) :=
  inferInstanceAs (Decidable (_ ∧ _))

/-- All intervals between the edges of a burst are in tolerance and add up to 26
or 27 half-bits. -/
def IsFrameLength (fCpu : Nat) (counts : List UInt8) : Prop :=
  ∃ halfbits, List.Forall₂ (Measures fCpu) halfbits counts.tail ∧
    (halfbits.sum = 26 ∨ halfbits.sum = 27)

/-- The intervals of a burst the receiver looks at: all but those in front of the
edges at which its edge counter is zero. -/
def checked (counts : List UInt8) : List UInt8 :=
  (counts.zipIdx.filter fun entry => entry.2 % 256 ≠ 0).map Prod.fst

/-- The half-bits of a burst are 26 or 27 modulo 256 only if they are less than
256. -/
def CountersFit (fCpu : Nat) (counts : List UInt8) : Prop :=
  ∀ halfbits, List.Forall₂ (Measures fCpu) halfbits (checked counts) →
    (halfbits.sum % 256 = 26 ∨ halfbits.sum % 256 = 27) → halfbits.sum < 256

/-- The overflow handler raises `new_data`. -/
def SetsNewData (state : State) : Prop :=
  (isrTimer0Ovf
    { state with rc5Global := { state.rc5Global with newData := false } }).rc5Global.newData = true

/-- At every overflow of an interrupt sequence only a frame-length burst raises
`new_data`, and the receiver is idle afterwards and decodes the next frame. -/
def RejectsNoise (fCpu : Nat) (interrupts : List Interrupt) : Prop :=
  ∀ before, before ++ [.overflow] <+: interrupts →
    let state := run fCpu rc5Init before
    (SetsNewData state → IsFrameLength fCpu (burst before)) ∧
      Idle (isrTimer0Ovf state) ∧
      ∀ transmission : Transmission fCpu,
        transmission.Delivered (run fCpu (isrTimer0Ovf state) transmission.interrupts)

/-! ## Bursts -/

theorem burst_edge (interrupts : List Interrupt) (counter : UInt8) :
    burst (interrupts ++ [.edge counter]) = burst interrupts ++ [counter] := by
  simp [burst]

theorem burst_overflow (interrupts : List Interrupt) :
    burst (interrupts ++ [.overflow]) = [] := by
  simp [burst]

@[simp] theorem checked_nil : checked [] = [] := rfl

theorem checked_snoc (counts : List UInt8) (counter : UInt8) :
    checked (counts ++ [counter]) =
      if counts.length % 256 = 0 then checked counts else checked counts ++ [counter] := by
  simp only [checked, List.zipIdx_append, List.filter_append, List.map_append]
  split <;> simp_all

theorem checked_prefix (left right : List UInt8) : checked left <+: checked (left ++ right) := by
  simp only [checked, List.zipIdx_append, List.filter_append, List.map_append]
  exact List.prefix_append _ _

/-- Only the first interval of a burst of at most 256 edges is not looked at. -/
theorem checked_of_short (counts : List UInt8) (short : counts.length ≤ 256) :
    checked counts = counts.tail := by
  induction counts using List.reverseRecOn with
  | nil => rfl
  | append_singleton counts counter ih =>
      rw [List.length_append, List.length_singleton] at short
      rw [checked_snoc, ih (by omega)]
      cases counts with
      | nil => rfl
      | cons first rest =>
          rw [List.length_cons] at short ⊢
          rw [if_neg (by omega)]
          rfl

theorem length_checked_of_long (counts : List UInt8) (long : 256 < counts.length) :
    255 ≤ (checked counts).length := by
  have short : (counts.take 256).length ≤ 256 := by simp
  have included := checked_prefix (counts.take 256) (counts.drop 256)
  rw [List.take_append_drop, checked_of_short _ short] at included
  have bound := included.length_le
  simp only [List.length_tail, List.length_take] at bound
  omega

/-! ## Measured intervals -/

theorem receivedBits_eq_some {fCpu halfbits : Nat} {counter : UInt8} :
    receivedBits fCpu counter = some halfbits ↔ Measures fCpu halfbits counter := by
  constructor
  · intro received
    simp only [receivedBits] at received
    split at received
    · next half =>
        obtain rfl := Option.some.inj received
        exact ⟨.inl rfl, half⟩
    · split at received
      · next full =>
          obtain rfl := Option.some.inj received
          exact ⟨.inr rfl, full⟩
      · cases received
  · rintro ⟨small, tolerated⟩
    exact receivedBits_of_tolerated small tolerated

/-- An interval has at most one length. -/
theorem Measures.unique {fCpu left right : Nat} {counter : UInt8}
    (one : Measures fCpu left counter) (other : Measures fCpu right counter) :
    left = right := by
  rw [← receivedBits_eq_some] at one other
  exact Option.some.inj (one.symm.trans other)

theorem measures_unique {fCpu : Nat} {counts : List UInt8} {left right : List Nat}
    (one : List.Forall₂ (Measures fCpu) left counts)
    (other : List.Forall₂ (Measures fCpu) right counts) : left = right := by
  induction one generalizing right with
  | nil => cases other; rfl
  | cons head _ ih =>
      cases other with
      | cons otherHead otherTail => rw [head.unique otherHead, ih otherTail]

theorem length_le_sum {fCpu : Nat} {counts : List UInt8} {halfbits : List Nat}
    (measured : List.Forall₂ (Measures fCpu) halfbits counts) :
    counts.length ≤ halfbits.sum := by
  induction measured with
  | nil => simp
  | cons head _ ih =>
      obtain ⟨small, -⟩ := head
      rw [List.length_cons, List.sum_cons]
      omega

theorem measures_snoc {fCpu : Nat} {counts : List UInt8} {counter : UInt8} {halfbits : List Nat} :
    List.Forall₂ (Measures fCpu) halfbits (counts ++ [counter]) ↔
      ∃ front last, halfbits = front ++ [last] ∧
        List.Forall₂ (Measures fCpu) front counts ∧ Measures fCpu last counter := by
  constructor
  · intro measured
    refine ⟨halfbits.take counts.length, ?_⟩
    have front := List.forall₂_take_append _ counts [counter] measured
    have back := List.forall₂_drop_append _ counts [counter] measured
    cases rest : halfbits.drop counts.length with
    | nil => rw [rest] at back; cases back
    | cons last more =>
        rw [rest] at back
        cases back with
        | cons head tail =>
            cases tail
            refine ⟨last, ?_, front, head⟩
            rw [← rest, List.take_append_drop]
  · rintro ⟨front, last, rfl, measured, head⟩
    exact List.rel_append measured (.cons head .nil)

/-! ## The receiver during a burst -/

/-- The counters of the receiver in terms of the burst seen so far. -/
structure Follows (fCpu : Nat) (counts : List UInt8) (state : State) : Prop where
  enabled : state.rc5Global.enabled = true
  accepted : ∀ halfbits, List.Forall₂ (Measures fCpu) halfbits (checked counts) →
    state.rc5Global.tempDisable = false ∧
      state.rc5Global.interrupts = UInt8.ofNat counts.length ∧
      state.rc5Global.halfbitcount = UInt8.ofNat halfbits.sum
  rejected : (¬∃ halfbits, List.Forall₂ (Measures fCpu) halfbits (checked counts)) →
    state.rc5Global.tempDisable = true ∧ state.rc5Global.halfbitcount = 0

theorem follows_of_idle (fCpu : Nat) {state : State} (idle : Idle state) :
    Follows fCpu [] state where
  enabled := idle.enabled
  accepted := by
    intro halfbits measured
    cases measured
    exact ⟨idle.tempDisable, idle.interrupts, idle.halfbitcount⟩
  rejected := fun never => (never ⟨[], .nil⟩).elim

theorem global_processHalfbit_iterate (state : State) (count : Nat) :
    (processHalfbit^[count] state).rc5Global =
      { state.rc5Global with
        halfbitcount := state.rc5Global.halfbitcount + UInt8.ofNat count } := by
  induction count generalizing state with
  | zero => simp
  | succ count ih =>
      rw [Function.iterate_succ_apply, ih]
      simp [processHalfbit, add_assoc, add_comm]

namespace Follows

variable {fCpu : Nat} {counts : List UInt8} {state : State}

/-- One more edge. -/
theorem edge (follows : Follows fCpu counts state) (counter : UInt8) :
    Follows fCpu (counts ++ [counter]) (isrRc5IntSignal fCpu counter state) := by
  by_cases measurable : ∃ halfbits, List.Forall₂ (Measures fCpu) halfbits (checked counts)
  · obtain ⟨halfbits, measured⟩ := measurable
    obtain ⟨awake, edges, count⟩ := follows.accepted halfbits measured
    by_cases first : counts.length % 256 = 0
    · -- the edge counter is zero, so the interval is not looked at
      have isZero : state.rc5Global.interrupts = 0 := by
        rw [edges, ← UInt8.toNat_inj]
        simpa using first
      have kept : checked (counts ++ [counter]) = checked counts := by
        rw [checked_snoc, if_pos first]
      simp only [isrRc5IntSignal, follows.enabled, awake, isZero, Bool.not_false,
        Bool.and_self, if_true]
      refine ⟨rfl, ?_, ?_⟩
      · intro other otherMeasured
        rw [kept] at otherMeasured
        obtain rfl := measures_unique measured otherMeasured
        refine ⟨rfl, ?_, count⟩
        rw [isZero] at edges
        simp [← edges]
      · rw [kept]
        exact fun never => (never ⟨halfbits, measured⟩).elim
    · have notZero : state.rc5Global.interrupts ≠ 0 := by
        rw [edges, ← UInt8.toNat_inj.ne]
        simpa using first
      have grown : checked (counts ++ [counter]) = checked counts ++ [counter] := by
        rw [checked_snoc, if_neg first]
      simp only [isrRc5IntSignal, follows.enabled, awake, if_neg notZero, Bool.not_false,
        Bool.and_self, if_true]
      cases received : receivedBits fCpu counter with
      | some bits =>
          have last := receivedBits_eq_some.mp received
          simp only [global_processHalfbit_iterate]
          refine ⟨follows.enabled, ?_, ?_⟩
          · intro other otherMeasured
            rw [grown, measures_snoc] at otherMeasured
            obtain ⟨front, final, rfl, frontMeasured, finalMeasured⟩ := otherMeasured
            obtain rfl := measures_unique measured frontMeasured
            obtain rfl := last.unique finalMeasured
            exact ⟨awake, by simp [edges], by simp [count]⟩
          · rw [grown]
            exact fun never =>
              (never ⟨_, measures_snoc.mpr ⟨halfbits, bits, rfl, measured, last⟩⟩).elim
      | none =>
          refine ⟨rfl, ?_, fun _ => ⟨rfl, rfl⟩⟩
          intro other otherMeasured
          rw [grown, measures_snoc] at otherMeasured
          obtain ⟨front, final, rfl, -, finalMeasured⟩ := otherMeasured
          rw [receivedBits_eq_some.mpr finalMeasured] at received
          cases received
  · obtain ⟨asleep, count⟩ := follows.rejected measurable
    have stays : isrRc5IntSignal fCpu counter state = state := by
      simp [isrRc5IntSignal, asleep]
    have still : ¬∃ halfbits,
        List.Forall₂ (Measures fCpu) halfbits (checked (counts ++ [counter])) := by
      rw [checked_snoc]
      split
      · exact measurable
      · rintro ⟨halfbits, measured⟩
        obtain ⟨front, -, -, frontMeasured, -⟩ := measures_snoc.mp measured
        exact measurable ⟨front, frontMeasured⟩
    rw [stays]
    exact ⟨follows.enabled, fun halfbits measured => (still ⟨halfbits, measured⟩).elim,
      fun _ => ⟨asleep, count⟩⟩

/-- An overflow raises `new_data` exactly when the looked-at intervals are all in
tolerance and come to 26 or 27 half-bits modulo 256. -/
theorem setsNewData_iff (follows : Follows fCpu counts state) :
    SetsNewData state ↔
      ∃ halfbits, List.Forall₂ (Measures fCpu) halfbits (checked counts) ∧
        (halfbits.sum % 256 = 26 ∨ halfbits.sum % 256 = 27) := by
  have raised : SetsNewData state ↔
      state.rc5Global.halfbitcount = 26 ∨ state.rc5Global.halfbitcount = 27 := by
    by_cases isTwentySix : state.rc5Global.halfbitcount = 26
    · simp [SetsNewData, isrTimer0Ovf, isTwentySix, follows.enabled]
    · by_cases isTwentySeven : state.rc5Global.halfbitcount = 27 <;>
        simp [SetsNewData, isrTimer0Ovf, isTwentySix, isTwentySeven, follows.enabled]
  rw [raised]
  by_cases measurable : ∃ halfbits, List.Forall₂ (Measures fCpu) halfbits (checked counts)
  · obtain ⟨halfbits, measured⟩ := measurable
    obtain ⟨-, -, count⟩ := follows.accepted halfbits measured
    have reading (value : Nat) (small : value < 256) :
        state.rc5Global.halfbitcount = UInt8.ofNat value ↔ halfbits.sum % 256 = value := by
      rw [count, ← UInt8.toNat_inj, UInt8.toNat_ofNat', UInt8.toNat_ofNat',
        Nat.mod_eq_of_lt small]
    rw [show (26 : UInt8) = UInt8.ofNat 26 from rfl, show (27 : UInt8) = UInt8.ofNat 27 from rfl,
      reading 26 (by omega), reading 27 (by omega)]
    constructor
    · exact fun sums => ⟨halfbits, measured, sums⟩
    · rintro ⟨other, otherMeasured, sums⟩
      rwa [measures_unique measured otherMeasured]
  · obtain ⟨-, count⟩ := follows.rejected measurable
    constructor
    · rw [count]
      exact fun impossible => absurd impossible (by decide)
    · rintro ⟨halfbits, measured, -⟩
      exact (measurable ⟨halfbits, measured⟩).elim

end Follows

/-- The receiver follows every interrupt sequence. -/
theorem follows_run (fCpu : Nat) (interrupts : List Interrupt) :
    Follows fCpu (burst interrupts) (run fCpu rc5Init interrupts) := by
  induction interrupts using List.reverseRecOn with
  | nil => exact follows_of_idle fCpu idle_rc5Init
  | append_singleton interrupts interrupt ih =>
      rw [run_append]
      cases interrupt with
      | edge counter =>
          rw [burst_edge]
          exact ih.edge counter
      | overflow =>
          rw [burst_overflow]
          exact follows_of_idle fCpu (idle_isrTimer0Ovf ih.enabled)

/-- For a burst whose counters fit, raising `new_data` means having the length of
a frame. -/
theorem isFrameLength_iff (fCpu : Nat) (counts : List UInt8) :
    ((∃ halfbits, List.Forall₂ (Measures fCpu) halfbits (checked counts) ∧
        (halfbits.sum % 256 = 26 ∨ halfbits.sum % 256 = 27)) →
      IsFrameLength fCpu counts) ↔ CountersFit fCpu counts := by
  constructor
  · intro frame halfbits measured sums
    obtain ⟨others, othersMeasured, total⟩ := frame ⟨halfbits, measured, sums⟩
    have bound := length_le_sum othersMeasured
    have short : counts.length ≤ 256 := by
      rw [List.length_tail] at bound
      omega
    rw [checked_of_short counts short] at measured
    obtain rfl := measures_unique measured othersMeasured
    omega
  · rintro fit ⟨halfbits, measured, sums⟩
    have small := fit halfbits measured sums
    have bound := length_le_sum measured
    have short : counts.length ≤ 256 := by
      by_contra long
      have many := length_checked_of_long counts (by omega)
      omega
    rw [checked_of_short counts short] at measured
    exact ⟨halfbits, measured, by omega⟩

/-- Noise is rejected in an interrupt sequence exactly when the counters fit at
each of its overflows. -/
theorem rejectsNoise_iff (fCpu : Nat) (interrupts : List Interrupt) :
    RejectsNoise fCpu interrupts ↔
      ∀ before, before ++ [.overflow] <+: interrupts → CountersFit fCpu (burst before) := by
  refine forall_congr' fun before => forall_congr' fun _ => ?_
  have follows := follows_run fCpu before
  have idle := idle_isrTimer0Ovf follows.enabled
  dsimp only
  rw [follows.setsNewData_iff, isFrameLength_iff]
  exact and_iff_left ⟨idle, fun transmission => delivered transmission idle⟩

/-- A burst of 142 edges, 35 timer ticks apart. -/
def longBurst : List Interrupt := List.replicate 142 (.edge 35)

/-- At 20 MHz its 282 half-bits are taken for 26. -/
theorem longBurst_accepted : ¬RejectsNoise 20000000 (longBurst ++ [.overflow]) := by
  intro rejects
  obtain ⟨frame, -⟩ := rejects longBurst (List.prefix_refl _)
  rw [(follows_run 20000000 longBurst).setsNewData_iff, isFrameLength_iff] at frame
  have measured : List.Forall₂ (Measures 20000000) (List.replicate 141 2)
      (checked (burst longBurst)) := by decide +kernel
  have wrapped := frame _ measured (by simp)
  simp at wrapped

end Ethersex.Rc5
