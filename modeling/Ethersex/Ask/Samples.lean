import Mathlib
import Ethersex.Ask.Model

/-!
# Samples

The phases of a frame are samples.  The first sixteen of them are compared with a fixed limit; from the
last of these on the limit is in the middle between the shortest and the longest one.
-/

namespace Ethersex.Ask

/-! ## The limit -/

def lowest (samples : List Nat) : Nat := samples.foldl min 255

def highest (samples : List Nat) : Nat := samples.foldl max 0

/-- The limit that is learnt from the first sixteen samples. -/
def learntLimit (samples : List Nat) : Nat :=
  (lowest (samples.take 16) + highest (samples.take 16)) / 2

/-- The limit a sample is compared with. -/
def limitAt (fCpu : Nat) (samples : List Nat) (index : Nat) : Nat :=
  if index + 1 < 16 then defLimitTicks fCpu else learntLimit samples

theorem lowest_append (samples : List Nat) (sample : Nat) :
    lowest (samples ++ [sample]) = min (lowest samples) sample := by
  rw [lowest, List.foldl_append]
  rfl

theorem highest_append (samples : List Nat) (sample : Nat) :
    highest (samples ++ [sample]) = max (highest samples) sample := by
  rw [highest, List.foldl_append]
  rfl

theorem learntLimit_append {samples : List Nat} (many : 16 ≤ samples.length) (sample : Nat) :
    learntLimit (samples ++ [sample]) = learntLimit samples := by
  rw [learntLimit, List.take_append_of_le_length many, learntLimit]

/-! ## The buffer -/

/-- A bit of the buffer, the first one at the top of the first byte. -/
def bitAt (askBuf : Nat → UInt8) (index : Nat) : Bool :=
  (askBuf (index / 8)).toBitVec.getLsbD (7 - index % 8)

theorem getLsbD_store (byte : UInt8) (place : Fin 8) (bit : Bool) (other : Fin 8) :
    ((byte &&& ~~~(1 <<< (7 - UInt8.ofNat place))) |||
        if bit then 1 <<< (7 - UInt8.ofNat place) else 0).toBitVec.getLsbD other =
      if other.val = 7 - place.val then bit else byte.toBitVec.getLsbD other := by
  have mask : ∀ place other : Fin 8,
      ((1 : UInt8) <<< (7 - UInt8.ofNat place)).toBitVec.getLsbD other =
        decide (other.val = 7 - place.val) := by decide
  cases bit <;>
  simp only [UInt8.toBitVec_or, UInt8.toBitVec_and, UInt8.toBitVec_not, BitVec.getLsbD_or,
    BitVec.getLsbD_and, BitVec.getLsbD_not, if_true, mask, Bool.false_eq_true, if_false] <;>
  by_cases here : other.val = 7 - place.val <;>
  simp [here]

/-- A stored bit is the next one of the buffer. -/
theorem bitAt_askBufStore {sense : Sense} (room : sense.askBufBits.toNat < 64) (bit : Bool) (index : Nat) :
    bitAt (askBufStore bit sense).askBuf index =
      if index = sense.askBufBits.toNat then bit else bitAt sense.askBuf index := by
  have below : sense.askBufBits < 64 := UInt8.lt_iff_toNat_lt.mpr room
  have row : (sense.askBufBits / 8).toNat = sense.askBufBits.toNat / 8 := UInt8.toNat_div _ 8
  have column : sense.askBufBits % 8 = UInt8.ofNat (sense.askBufBits.toNat % 8) := by
    rw [← UInt8.toNat_inj, UInt8.toNat_mod, UInt8.toNat_ofNat_of_lt' (by change _ < 256; omega)]
    rfl
  have place : sense.askBufBits.toNat % 8 < 8 := Nat.mod_lt _ (by decide)
  have other : 7 - index % 8 < 8 := by omega
  have stored (byte : UInt8) := getLsbD_store byte ⟨_, place⟩ bit ⟨_, other⟩
  simp only at stored
  simp only [bitAt, askBufStore, if_pos below, row, column]
  rw [Function.update_apply]
  by_cases same : index / 8 = sense.askBufBits.toNat / 8
  · rw [if_pos same, stored, same]
    exact if_congr (by omega) rfl rfl
  · rw [if_neg same, if_neg fun equal => same (by rw [equal])]

section Frames

variable (fCpu : Nat) (sample : UInt8) (bit : Bool) (sense : Sense)

@[simp] theorem askBufStore_lastNoiseTs : (askBufStore bit sense).lastNoiseTs = sense.lastNoiseTs := rfl

@[simp] theorem askBufStore_lastTxTs : (askBufStore bit sense).lastTxTs = sense.lastTxTs := rfl

@[simp] theorem askBufStore_overflow : (askBufStore bit sense).overflow = sense.overflow := rfl

@[simp] theorem askBufStore_decodes : (askBufStore bit sense).decodes = sense.decodes := rfl

@[simp] theorem askBufStore_askBufBits : (askBufStore bit sense).askBufBits = sense.askBufBits + 1 := rfl

/-- What a sample leaves as it is. -/
theorem samplesLearn_frame :
    (samplesLearn sample sense).lastNoiseTs = sense.lastNoiseTs ∧
      (samplesLearn sample sense).lastTxTs = sense.lastTxTs ∧
      (samplesLearn sample sense).overflow = sense.overflow ∧
      (samplesLearn sample sense).decodes = sense.decodes ∧
      (samplesLearn sample sense).askBuf = sense.askBuf ∧
      (samplesLearn sample sense).askBufBits = sense.askBufBits := by
  unfold samplesLearn
  split_ifs <;> exact ⟨rfl, rfl, rfl, rfl, rfl, rfl⟩

theorem takeSample_frame :
    (takeSample fCpu sample sense).lastNoiseTs = sense.lastNoiseTs ∧
      (takeSample fCpu sample sense).lastTxTs = sense.lastTxTs ∧
      (takeSample fCpu sample sense).overflow = sense.overflow ∧
      (takeSample fCpu sample sense).decodes = sense.decodes ∧
      (takeSample fCpu sample sense).askBufBits = sense.askBufBits + 1 := by
  obtain ⟨noise, tx, overflow, decodes, -, bits⟩ := samplesLearn_frame sample sense
  simp only [takeSample, askBufStore_lastNoiseTs, askBufStore_lastTxTs, askBufStore_overflow,
    askBufStore_decodes, askBufStore_askBufBits, noise, tx, overflow, decodes, bits, and_self]

end Frames

/-! ## Gathering samples -/

/-- The samples since the start of a frame are in the buffer and in the variables of the limit. -/
structure Gathered (fCpu : Nat) (samples : List Nat) (sense : Sense) : Prop where
  bits : sense.askBufBits.toNat = samples.length
  num : sense.samplesNum.toNat = min samples.length 17
  least : samples ≠ [] → samples.length ≤ 16 → sense.samplesMin.toNat = lowest samples
  greatest : samples ≠ [] → samples.length ≤ 16 → sense.samplesMax.toNat = highest samples
  limit : 16 ≤ samples.length → sense.samplesLimit.toNat = learntLimit samples
  buffer : ∀ index (inside : index < samples.length),
    bitAt sense.askBuf index = decide (samples[index] > limitAt fCpu samples index)

section Gathering

variable {fCpu : Nat} {samples : List Nat} {sense : Sense}

/-- What `samples_learn` does to the number of samples and to the limit. -/
theorem Gathered.learn (gathered : Gathered fCpu samples sense) {sample : Nat} (small : sample < 256) :
    (samplesLearn (UInt8.ofNat sample) sense).samplesNum.toNat = min (samples.length + 1) 17 ∧
      (samples.length + 1 ≤ 16 →
        (samplesLearn (UInt8.ofNat sample) sense).samplesMin.toNat = lowest (samples ++ [sample]) ∧
        (samplesLearn (UInt8.ofNat sample) sense).samplesMax.toNat = highest (samples ++ [sample])) ∧
      (16 ≤ samples.length + 1 →
        (samplesLearn (UInt8.ofNat sample) sense).samplesLimit.toNat = learntLimit (samples ++ [sample])) := by
  have whole : (UInt8.ofNat sample).toNat = sample := UInt8.toNat_ofNat_of_lt' small
  have wait : waitSamplesNum.toNat = 16 := rfl
  have num := gathered.num
  have enough : sense.samplesNum > waitSamplesNum ↔ 17 ≤ samples.length := by
    rw [gt_iff_lt, UInt8.lt_iff_toNat_lt, wait, num]
    omega
  unfold samplesLearn
  by_cases done : 17 ≤ samples.length
  · rw [if_pos (enough.mpr done)]
    refine ⟨by omega, fun few => by omega, fun _ => ?_⟩
    rw [gathered.limit (by omega), learntLimit_append (by omega)]
  · have next : (sense.samplesNum + 1).toNat = samples.length + 1 := by
      have one : (1 : UInt8).toNat = 1 := rfl
      rw [UInt8.toNat_add, num, one]
      omega
    have first : sense.samplesNum = 0 ↔ samples = [] := by
      rw [← UInt8.toNat_inj, num, ← List.length_eq_zero_iff]
      have zero : (0 : UInt8).toNat = 0 := rfl
      omega
    have last : sense.samplesNum + 1 = waitSamplesNum ↔ samples.length = 15 := by
      rw [← UInt8.toNat_inj, next, wait]
      omega
    have least : (if sense.samplesNum = 0 ∨ UInt8.ofNat sample < sense.samplesMin then UInt8.ofNat sample
        else sense.samplesMin).toNat = lowest (samples ++ [sample]) := by
      rw [lowest_append]
      by_cases empty : samples = []
      · rw [if_pos (.inl (first.mpr empty)), whole, empty]
        exact (min_eq_right (Nat.le_of_lt_succ small)).symm
      · have held := gathered.least empty (by omega)
        have order : UInt8.ofNat sample < sense.samplesMin ↔ sample < lowest samples := by
          rw [UInt8.lt_iff_toNat_lt, whole, held]
        by_cases less : sample < lowest samples
        · rw [if_pos (.inr (order.mpr less)), whole, min_eq_right less.le]
        · rw [if_neg (not_or.mpr ⟨mt first.mp empty, mt order.mp less⟩), held, min_eq_left (by omega)]
    have greatest : (if sense.samplesNum = 0 ∨ UInt8.ofNat sample > sense.samplesMax then UInt8.ofNat sample
        else sense.samplesMax).toNat = highest (samples ++ [sample]) := by
      rw [highest_append]
      by_cases empty : samples = []
      · rw [if_pos (.inl (first.mpr empty)), whole, empty]
        exact (max_eq_right (Nat.zero_le sample)).symm
      · have held := gathered.greatest empty (by omega)
        have order : UInt8.ofNat sample > sense.samplesMax ↔ highest samples < sample := by
          rw [gt_iff_lt, UInt8.lt_iff_toNat_lt, whole, held]
        by_cases more : highest samples < sample
        · rw [if_pos (.inr (order.mpr more)), whole, max_eq_right more.le]
        · rw [if_neg (not_or.mpr ⟨mt first.mp empty, mt order.mp more⟩), held, max_eq_left (by omega)]
    rw [if_neg (mt enough.mp done)]
    refine ⟨by dsimp only; omega, fun _ => ⟨least, greatest⟩, fun many => ?_⟩
    by_cases now : samples.length = 15
    · have every : (samples ++ [sample]).take 16 = samples ++ [sample] := by
        apply List.take_of_length_le
        rw [List.length_append, now]
        rfl
      have low : lowest (samples ++ [sample]) < 256 := least ▸ UInt8.toNat_lt _
      have high : highest (samples ++ [sample]) < 256 := greatest ▸ UInt8.toNat_lt _
      dsimp only
      rw [if_pos (last.mpr now), least, greatest, UInt8.toNat_ofNat_of_lt' (by change _ < 256; omega),
        learntLimit, every]
    · dsimp only
      rw [if_neg (mt last.mp now), gathered.limit (by omega), learntLimit_append (by omega)]

/-- One more sample. -/
theorem Gathered.takeSample (gathered : Gathered fCpu samples sense) (room : samples.length < 64)
    {sample : Nat} (small : sample < 256) :
    Gathered fCpu (samples ++ [sample]) (takeSample fCpu (UInt8.ofNat sample) sense) := by
  obtain ⟨num, extremes, limit⟩ := gathered.learn small
  obtain ⟨-, -, -, -, askBuf, bits⟩ := samplesLearn_frame (UInt8.ofNat sample) sense
  have whole : (UInt8.ofNat sample).toNat = sample := UInt8.toNat_ofNat_of_lt' small
  have length : (samples ++ [sample]).length = samples.length + 1 := List.length_append
  have held : sense.askBufBits.toNat = samples.length := gathered.bits
  have next : (sense.askBufBits + 1).toNat = samples.length + 1 := by
    have one : (1 : UInt8).toNat = 1 := rfl
    rw [UInt8.toNat_add, held, one]
    omega
  have limitNow : limitTicks fCpu (samplesLearn (UInt8.ofNat sample) sense) =
      limitAt fCpu (samples ++ [sample]) samples.length := by
    have order : (samplesLearn (UInt8.ofNat sample) sense).samplesNum < waitSamplesNum ↔
        samples.length + 1 < 16 := by
      have wait : waitSamplesNum.toNat = 16 := rfl
      rw [UInt8.lt_iff_toNat_lt, num, wait]
      omega
    rw [limitTicks, limitAt]
    by_cases few : samples.length + 1 < 16
    · rw [if_pos (order.mpr few), if_pos few]
    · rw [if_neg (mt order.mp few), if_neg few, limit (by omega)]
  have limitBefore {index : Nat} (before : index < samples.length) :
      limitAt fCpu (samples ++ [sample]) index = limitAt fCpu samples index := by
    rw [limitAt, limitAt]
    by_cases few : index + 1 < 16
    · rw [if_pos few, if_pos few]
    · rw [if_neg few, if_neg few, learntLimit_append (by omega)]
  refine ⟨?_, ?_, fun _ few => ?_, fun _ few => ?_, fun many => ?_, fun index inside => ?_⟩
  · rw [(takeSample_frame fCpu _ sense).2.2.2.2, next, length]
  · rw [length]
    exact num
  · rw [length] at few
    exact (extremes few).1
  · rw [length] at few
    exact (extremes few).2
  · rw [length] at many
    exact limit many
  · have space : (samplesLearn (UInt8.ofNat sample) sense).askBufBits.toNat < 64 := by
      rw [bits, held]
      exact room
    have stored := bitAt_askBufStore space
      (ticksToBit fCpu (UInt8.ofNat sample) (samplesLearn (UInt8.ofNat sample) sense)) index
    rw [bits, askBuf, held, ticksToBit, limitNow, whole] at stored
    rw [Ask.takeSample, ticksToBit, limitNow, whole, stored]
    by_cases here : index = samples.length
    · subst here
      rw [if_pos rfl, List.getElem_concat_length rfl]
    · have before : index < samples.length := by omega
      rw [if_neg here, gathered.buffer index before, List.getElem_append_left before, limitBefore before]

end Gathering

end Ethersex.Ask
