import Mathlib
import Ethersex.Stella.Model

/-!
# Fading

The fade functions, applied to all channels again and again.  Normal fading takes each channel to its
target one level at a time.  Flashy fading jumps up to the target, but from above it looks for a greater
brightness than the one there is, and stays there.
-/

namespace Ethersex.Stella

section Config

variable (c : Config) (func : FadeFunc) (fade : Nat → UInt8)

/-- What the loop of `stella_process` does with a channel. -/
def fadeChannel (brightness : Nat → UInt8) (i : Nat) : Nat → UInt8 :=
  if brightness i = fade i then brightness
  else Function.update brightness i (fadeWith func (brightness i) (fade i))

/-- The loop of `stella_process` that fades the channels. -/
def fadeChannels (brightness : Nat → UInt8) : Nat → UInt8 :=
  (List.range c.STELLA_PINS).foldl (fadeChannel func fade) brightness

/-- What fading makes of a brightness. -/
def fadeOnce (target brightness : UInt8) : UInt8 :=
  if brightness = target then brightness else fadeWith func brightness target

/-- The brightness changes towards the target, and not beyond it. -/
def Towards (brightness after target : UInt8) : Prop :=
  brightness ≤ after ∧ after ≤ target ∨ target ≤ after ∧ after ≤ brightness

/-- Each channel comes to its target in at most 255 steps, each of them towards it, and stays there. -/
def Converges (brightness : Nat → UInt8) : Prop :=
  ∀ i < c.STELLA_PINS,
    (∃ n ≤ 255, ∀ m ≥ n, (fadeChannels c func fade)^[m] brightness i = fade i) ∧
    ∀ n, Towards ((fadeChannels c func fade)^[n] brightness i)
      ((fadeChannels c func fade)^[n + 1] brightness i) (fade i)

end Config

section Channels

variable {c : Config} {func : FadeFunc} {fade : Nat → UInt8}

theorem fadeChannel_eq (brightness : Nat → UInt8) (i : Nat) :
    fadeChannel func fade brightness i =
      Function.update brightness i (fadeOnce func (fade i) (brightness i)) := by
  rw [fadeChannel, fadeOnce]
  split_ifs
  · rw [Function.update_eq_self]
  · rfl

/-- Each channel fades by itself. -/
theorem fadeChannels_apply (brightness : Nat → UInt8) {i : Nat} (inside : i < c.STELLA_PINS) :
    fadeChannels c func fade brightness i = fadeOnce func (fade i) (brightness i) := by
  have loop (n i : Nat) : (List.range n).foldl (fadeChannel func fade) brightness i =
      if i < n then fadeOnce func (fade i) (brightness i) else brightness i := by
    induction n generalizing i with
    | zero => exact (if_neg (Nat.not_lt_zero i)).symm
    | succ n ih =>
      rw [List.range_succ, List.foldl_append, List.foldl_cons, List.foldl_nil, fadeChannel_eq, ih n,
        if_neg (lt_irrefl n)]
      by_cases here : i = n
      · subst here
        rw [Function.update_self, if_pos (Nat.lt_succ_self i)]
      · rw [Function.update_of_ne here, ih]
        exact if_congr (by omega) rfl rfl
  rw [fadeChannels, loop, if_pos inside]

theorem fadeChannels_iterate (brightness : Nat → UInt8) {i : Nat} (inside : i < c.STELLA_PINS) (n : Nat) :
    (fadeChannels c func fade)^[n] brightness i = (fadeOnce func (fade i))^[n] (brightness i) := by
  induction n with
  | zero => rfl
  | succ n ih =>
    rw [Function.iterate_succ_apply', fadeChannels_apply _ inside, ih, Function.iterate_succ_apply']

/-- Without an interruption the main loop fades as a whole. -/
theorem process_fadeChannels (s : State) (starts : s.main = .fade 0) :
    ((process c)^[c.STELLA_PINS + 1] s).stella_brightness =
      fadeChannels c s.stella_fade_func s.stella_fade s.stella_brightness := by
  have loop (n : Nat) (inside : n ≤ c.STELLA_PINS) :
      ((process c)^[n] s).stella_brightness =
          (List.range n).foldl (fadeChannel s.stella_fade_func s.stella_fade) s.stella_brightness ∧
        ((process c)^[n] s).stella_fade = s.stella_fade ∧
        ((process c)^[n] s).stella_fade_func = s.stella_fade_func ∧
        ((process c)^[n] s).main = .fade n := by
    induction n with
    | zero => exact ⟨rfl, rfl, rfl, starts⟩
    | succ n ih =>
      obtain ⟨brightness, fade, func, main⟩ := ih (Nat.le_of_succ_le inside)
      rw [Function.iterate_succ_apply', process, main]
      dsimp only
      rw [if_pos (Nat.lt_of_succ_le inside), List.range_succ, List.foldl_append, List.foldl_cons,
        List.foldl_nil, ← brightness, fadeChannel, fade, func]
      split_ifs with same
      · exact ⟨rfl, rfl, rfl, rfl⟩
      · exact ⟨rfl, rfl, rfl, rfl⟩
  obtain ⟨brightness, -, -, main⟩ := loop c.STELLA_PINS le_rfl
  rw [Function.iterate_succ_apply', process, main]
  dsimp only
  rw [if_neg (lt_irrefl _)]
  exact brightness

end Channels

/-! ## One channel -/

section Channel

variable {func : FadeFunc} {target brightness : UInt8}

theorem fadeOnce_target : fadeOnce func target target = target := if_pos rfl

theorem fadeOnce_iterate_target (n : Nat) : (fadeOnce func target)^[n] target = target :=
  Function.iterate_fixed fadeOnce_target n

/-- One level up. -/
theorem fadeOnce_normal_up (less : brightness < target) :
    (fadeOnce .normal target brightness).toNat = brightness.toNat + 1 := by
  have order := UInt8.lt_iff_toNat_lt.mp less
  have small := target.toNat_lt
  rw [fadeOnce, if_neg (UInt8.ne_of_lt less), fadeWith, fadeNormal,
    if_neg (UInt8.not_lt.mpr (UInt8.le_of_lt less)), UInt8.toNat_add, UInt8.toNat_one]
  omega

/-- One level down. -/
theorem fadeOnce_normal_down (greater : target < brightness) :
    (fadeOnce .normal target brightness).toNat = brightness.toNat - 1 := by
  have order := UInt8.lt_iff_toNat_lt.mp greater
  have one : (1 : UInt8) ≤ brightness := by
    rw [UInt8.le_iff_toNat_le, UInt8.toNat_one]
    omega
  rw [fadeOnce, if_neg (UInt8.ne_of_lt greater).symm, fadeWith, fadeNormal, if_pos greater,
    UInt8.toNat_sub_of_le _ _ one, UInt8.toNat_one]

/-- Normal fading has done `n` levels, or all there were. -/
theorem fadeOnce_normal_iterate (n : Nat) :
    ((fadeOnce .normal target)^[n] brightness).toNat =
      if brightness.toNat ≤ target.toNat then min target.toNat (brightness.toNat + n)
      else max target.toNat (brightness.toNat - n) := by
  induction n with
  | zero =>
    rw [Function.iterate_zero, id_eq]
    split_ifs <;> omega
  | succ n ih =>
    rw [Function.iterate_succ_apply']
    rcases lt_trichotomy ((fadeOnce .normal target)^[n] brightness).toNat target.toNat with
      less | same | more
    · rw [fadeOnce_normal_up (UInt8.lt_iff_toNat_lt.mpr less)]
      split_ifs at ih ⊢ <;> omega
    · rw [UInt8.toNat_inj.mp same, fadeOnce_target]
      split_ifs at ih ⊢ <;> omega
    · rw [fadeOnce_normal_down (UInt8.lt_iff_toNat_lt.mpr more)]
      split_ifs at ih ⊢ <;> omega

theorem fadeOnce_normal_towards : Towards brightness (fadeOnce .normal target brightness) target := by
  rcases lt_trichotomy brightness.toNat target.toNat with less | same | more
  · have up := fadeOnce_normal_up (UInt8.lt_iff_toNat_lt.mpr less)
    refine .inl ⟨UInt8.le_iff_toNat_le.mpr ?_, UInt8.le_iff_toNat_le.mpr ?_⟩
    · omega
    · omega
  · rw [UInt8.toNat_inj.mp same, fadeOnce_target]
    exact .inl ⟨UInt8.le_refl _, UInt8.le_refl _⟩
  · have down := fadeOnce_normal_down (UInt8.lt_iff_toNat_lt.mpr more)
    refine .inr ⟨UInt8.le_iff_toNat_le.mpr ?_, UInt8.le_iff_toNat_le.mpr ?_⟩
    · omega
    · omega

/-- From below, the flashy step is a jump to the target. -/
theorem fadeOnce_flashy_of_le (atMost : brightness ≤ target) :
    fadeOnce .flashy target brightness = target := by
  rw [fadeOnce]
  split_ifs with same
  · exact same
  · have less : brightness < target := UInt8.lt_of_le_of_ne atMost same
    rw [fadeWith, fadeFlashy, if_neg (UInt8.not_lt.mpr atMost)]
    exact if_pos less

/-- From above, the flashy step goes up or nowhere. -/
theorem fadeOnce_flashy_of_lt (greater : target < brightness) :
    brightness ≤ fadeOnce .flashy target brightness := by
  rw [fadeOnce, if_neg (UInt8.ne_of_lt greater).symm, fadeWith, fadeFlashy, if_pos greater]
  split_ifs with less
  · exact UInt8.le_of_lt less
  · exact UInt8.le_refl _

theorem fadeOnce_flashy_iterate (greater : target < brightness) (n : Nat) :
    target < (fadeOnce .flashy target)^[n] brightness := by
  induction n with
  | zero => exact greater
  | succ n ih =>
    rw [Function.iterate_succ_apply']
    exact UInt8.lt_of_lt_of_le ih (fadeOnce_flashy_of_lt ih)

end Channel

/-! ## All channels -/

section Converges

variable {c : Config} {func : FadeFunc} {fade brightness : Nat → UInt8}

theorem fades_normal : Converges c .normal fade brightness := by
  intro i inside
  constructor
  · use 255, le_rfl
    intro m long
    have start := (brightness i).toNat_lt
    have target := (fade i).toNat_lt
    apply UInt8.toNat_inj.mp
    rw [fadeChannels_iterate _ inside, fadeOnce_normal_iterate]
    split_ifs
    · omega
    · omega
  · intro n
    rw [Function.iterate_succ_apply', fadeChannels_apply _ inside]
    exact fadeOnce_normal_towards

theorem fades_flashy (below : ∀ i < c.STELLA_PINS, brightness i ≤ fade i) :
    Converges c .flashy fade brightness := by
  intro i inside
  have reached (n : Nat) : (fadeChannels c .flashy fade)^[n + 1] brightness i = fade i := by
    rw [fadeChannels_iterate _ inside, Function.iterate_succ_apply, fadeOnce_flashy_of_le (below i inside),
      fadeOnce_iterate_target]
  constructor
  · use 1, by decide
    intro m long
    obtain ⟨n, rfl⟩ := Nat.exists_eq_add_of_le' long
    exact reached n
  · intro n
    rw [reached n]
    cases n with
    | zero => exact .inl ⟨below i inside, UInt8.le_refl _⟩
    | succ n =>
      rw [reached n]
      exact .inl ⟨UInt8.le_refl _, UInt8.le_refl _⟩

theorem not_fades_flashy {i : Nat} (inside : i < c.STELLA_PINS) (above : fade i < brightness i) :
    ¬ Converges c .flashy fade brightness := by
  intro fades
  obtain ⟨⟨n, -, settled⟩, -⟩ := fades i inside
  have greater := fadeOnce_flashy_iterate above n
  rw [← fadeChannels_iterate _ inside, settled n le_rfl] at greater
  exact UInt8.lt_irrefl _ greater

/-- The flashy function does not fade down. -/
theorem fades_iff :
    Converges c func fade brightness ↔ func = .normal ∨ ∀ i < c.STELLA_PINS, brightness i ≤ fade i := by
  cases func with
  | normal => exact iff_of_true fades_normal (.inl rfl)
  | flashy =>
    constructor
    · intro fades
      right
      intro i inside
      by_contra above
      exact not_fades_flashy inside (UInt8.not_le.mp above) fades
    · rintro (normal | below)
      · cases normal
      · exact fades_flashy below

end Converges

/-- A channel at 200 does not go dark. -/
theorem bright_stays : ¬ Converges ⟨1, 0, by decide⟩ .flashy (fun _ => 0) (fun _ => 200) :=
  not_fades_flashy Nat.one_pos (by decide)

end Ethersex.Stella
