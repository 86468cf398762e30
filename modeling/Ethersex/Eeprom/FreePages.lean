import Mathlib
import Ethersex.Eeprom.Model

/-!
# The search for a free page

The search on an EEPROM of any content and from any start.  It takes the pages in turn, and a start behind
the last page never comes again: then only a free page ends it.
-/

namespace Ethersex.Eeprom

section Search

variable (eeprom : Device) (suggested : Nat)

/-- The search ends with this page. -/
def EndsAt (tmp : Nat) : Prop := isFree eeprom tmp ∨ following tmp = suggested

/-- What the search delivers when it ends with this page. -/
def deliveredAt (tmp : Nat) : Nat := if isFree eeprom tmp then tmp else 0

/-- The search ends, with a free page if there is one, and with 0 if and only if there is none. -/
def FindsFreePage : Prop :=
  ∃ found, vfsEepromFindFreePage eeprom suggested = some found ∧
    ((∃ page < pageCount, isFree eeprom page) → found < pageCount ∧ isFree eeprom found) ∧
    (found = 0 ↔ ∀ page < pageCount, ¬isFree eeprom page)

end Search

variable {eeprom : Device} {suggested : Nat}

theorem searchFree_eq_some {passes tmp found : Nat} :
    searchFree eeprom suggested passes tmp = some found ↔
      ∃ k < passes, (∀ j < k, ¬EndsAt eeprom suggested (following^[j] tmp)) ∧
        EndsAt eeprom suggested (following^[k] tmp) ∧ found = deliveredAt eeprom (following^[k] tmp) := by
  induction passes generalizing tmp with
  | zero =>
    constructor
    · intro search
      cases search
    · rintro ⟨k, none, -⟩
      exact absurd none (Nat.not_lt_zero k)
  | succ passes ih =>
    by_cases ends : EndsAt eeprom suggested tmp
    · have here : searchFree eeprom suggested (passes + 1) tmp = some (deliveredAt eeprom tmp) := by
        rw [searchFree, deliveredAt]
        by_cases free : isFree eeprom tmp
        · rw [if_pos free, if_pos free]
        · rw [if_neg free, if_neg free, if_pos (ends.resolve_left free)]
      rw [here, Option.some_inj]
      constructor
      · rintro rfl
        exact ⟨0, Nat.succ_pos passes, fun j before => absurd before (Nat.not_lt_zero j), ends, rfl⟩
      · rintro ⟨k, -, before, -, rfl⟩
        cases k with
        | zero => rfl
        | succ k => exact absurd ends (before 0 (Nat.succ_pos k))
    · have on : searchFree eeprom suggested (passes + 1) tmp =
          searchFree eeprom suggested passes (following tmp) := by
        rw [EndsAt, not_or] at ends
        rw [searchFree, if_neg ends.1, if_neg ends.2]
      rw [on, ih]
      constructor
      · rintro ⟨k, inside, before, last⟩
        refine ⟨k + 1, Nat.succ_lt_succ inside, ?_, last⟩
        intro j less
        cases j with
        | zero => exact ends
        | succ j => exact before j (Nat.lt_of_succ_lt_succ less)
      · rintro ⟨k, inside, before, last⟩
        cases k with
        | zero => exact absurd last.1 ends
        | succ k =>
          exact ⟨k, Nat.lt_of_succ_lt_succ inside, fun j less => before (j + 1) (Nat.succ_lt_succ less),
            last⟩

/-! ## The order of the pages -/

theorem following_iterate (inside : suggested < pageCount) (k : Nat) :
    following^[k] suggested = (suggested + k) % pageCount := by
  induction k with
  | zero => exact (Nat.mod_eq_of_lt inside).symm
  | succ k ih =>
    rw [Function.iterate_succ_apply', ih, following]
    rw [pageCount] at *
    split_ifs <;> omega

theorem following_iterate_behind (behind : pageCount ≤ suggested) (k : Nat) :
    following^[k + 1] suggested = k % pageCount := by
  rw [Function.iterate_succ_apply, following, if_pos (Nat.le_succ_of_le behind),
    following_iterate (by decide), Nat.zero_add]

/-- A start behind the last page does not come again. -/
theorem endsAt_behind (behind : pageCount ≤ suggested) (tmp : Nat) :
    EndsAt eeprom suggested tmp ↔ isFree eeprom tmp := by
  apply or_iff_left
  rw [following]
  rw [pageCount] at *
  split_ifs <;> omega

/-- A start inside comes again after 512 pages. -/
theorem endsAt_last (inside : suggested < pageCount) :
    EndsAt eeprom suggested (following^[511] suggested) := by
  right
  rw [← Function.iterate_succ_apply' following, following_iterate inside, pageCount]
  rw [pageCount] at inside
  omega

/-- A search that has not ended after 513 passes does not end. -/
theorem findFreePage_of_passes {passes found : Nat}
    (search : searchFree eeprom suggested passes suggested = some found) :
    vfsEepromFindFreePage eeprom suggested = some found := by
  obtain ⟨k, -, before, last⟩ := searchFree_eq_some.mp search
  refine searchFree_eq_some.mpr ⟨k, ?_, before, last⟩
  by_contra long
  rw [pageCount, not_lt] at long
  rcases Nat.lt_or_ge suggested pageCount with inside | behind
  · exact before 511 (by omega) (endsAt_last inside)
  · obtain ⟨n, rfl⟩ := Nat.exists_eq_succ_of_ne_zero (show k ≠ 0 by omega)
    have early := Nat.mod_lt n (show 0 < pageCount by decide)
    refine before (n % pageCount + 1) (by rw [pageCount] at *; omega) ?_
    rw [following_iterate_behind behind, Nat.mod_mod, ← following_iterate_behind behind]
    exact last.1

/-! ## Starts inside -/

section Inside

variable (inside : suggested < pageCount)
include inside

theorem seen_inside {k page : Nat} (before : ∀ j < k, ¬EndsAt eeprom suggested (following^[j] suggested))
    (early : suggested ≤ page) (small : page < pageCount) (reached : page < suggested + k) :
    ¬isFree eeprom page := by
  intro free
  apply before (page - suggested) (by omega)
  rw [following_iterate inside, Nat.add_sub_cancel' early, Nat.mod_eq_of_lt small]
  exact .inl free

/-- A free superblock is found first, unless there is a free page between. -/
theorem free_before (finds : FindsFreePage eeprom suggested) (free : isFree eeprom 0) :
    0 < suggested ∧ ∃ page < pageCount, suggested ≤ page ∧ isFree eeprom page := by
  obtain ⟨found, search, -, zero⟩ := finds
  obtain ⟨k, -, before, last, rfl⟩ := searchFree_eq_some.mp search
  have nonzero : deliveredAt eeprom (following^[k] suggested) ≠ 0 := fun same =>
    zero.mp same 0 (by decide) free
  have freeLast : isFree eeprom (following^[k] suggested) := by
    by_contra used
    exact nonzero (if_neg used)
  rw [deliveredAt, if_pos freeLast] at nonzero
  rw [following_iterate inside] at nonzero freeLast
  -- the superblock does not come before the page that was found
  have short : suggested + k < pageCount := by
    by_contra long
    apply before (pageCount - suggested) (by
      rw [pageCount] at *
      omega)
    rw [following_iterate inside, Nat.add_sub_cancel' (Nat.le_of_lt inside), Nat.mod_self]
    exact .inl free
  rw [Nat.mod_eq_of_lt short] at nonzero freeLast
  constructor
  · by_contra start
    obtain rfl := Nat.eq_zero_of_not_pos start
    apply before 0 (by omega)
    exact .inl free
  · exact ⟨suggested + k, short, Nat.le_add_right suggested k, freeLast⟩

/-- The page that ends the search. -/
theorem first_inside (eeprom : Device) : ∃ k ≤ 511, (∀ j < k, ¬EndsAt eeprom suggested (following^[j] suggested)) ∧
    EndsAt eeprom suggested (following^[k] suggested) := by
  classical
  have ends : ∃ k, EndsAt eeprom suggested (following^[k] suggested) := ⟨511, endsAt_last inside⟩
  exact ⟨Nat.find ends, Nat.find_le (endsAt_last inside), fun j => Nat.find_min ends, Nat.find_spec ends⟩

theorem finds_inside
    (guarded : isFree eeprom 0 →
      0 < suggested ∧ ∃ page < pageCount, suggested ≤ page ∧ isFree eeprom page) :
    FindsFreePage eeprom suggested := by
  obtain ⟨k, early, before, last⟩ := first_inside inside eeprom
  refine ⟨_, searchFree_eq_some.mpr ⟨k, by rw [pageCount]; omega, before, last, rfl⟩, ?_⟩
  by_cases free : isFree eeprom (following^[k] suggested)
  · rw [deliveredAt, if_pos free]
    have small : following^[k] suggested < pageCount := by
      rw [following_iterate inside]
      exact Nat.mod_lt _ (by decide)
    refine ⟨fun _ => ⟨small, free⟩, fun zero => ?_, fun none => absurd free (none _ small)⟩
    rw [zero] at free
    obtain ⟨start, page, inside', after, freePage⟩ := guarded free
    have reached : suggested + k ≤ page := by
      by_contra beyond
      exact seen_inside inside before after inside' (Nat.not_le.mp beyond) freePage
    rw [following_iterate inside, Nat.mod_eq_of_lt (Nat.lt_of_le_of_lt reached inside')] at zero
    omega
  · rw [deliveredAt, if_neg free]
    have back := last.resolve_left free
    rw [← Function.iterate_succ_apply' following, following_iterate inside] at back
    have all : ∀ page < pageCount, ¬isFree eeprom page := by
      intro page small freePage
      have place : (suggested + (page + pageCount - suggested) % pageCount) % pageCount = page := by
        rw [pageCount] at *
        omega
      rcases Nat.lt_or_ge ((page + pageCount - suggested) % pageCount) k with seen | unseen
      · apply before _ seen
        rw [following_iterate inside, place]
        exact .inl freePage
      · have last : (page + pageCount - suggested) % pageCount = k := by
          rw [pageCount] at *
          omega
        rw [following_iterate inside, ← last, place] at free
        exact free freePage
    constructor
    · rintro ⟨page, small, freePage⟩
      exact absurd freePage (all page small)
    · exact iff_of_true rfl all

end Inside

/-! ## Starts behind -/

section Behind

variable (behind : pageCount ≤ suggested)
include behind

theorem used_of_finds (finds : FindsFreePage eeprom suggested) :
    ¬isFree eeprom suggested ∧ ¬isFree eeprom 0 ∧ ∃ page < pageCount, isFree eeprom page := by
  obtain ⟨found, search, real, zero⟩ := finds
  obtain ⟨k, -, before, last, rfl⟩ := searchFree_eq_some.mp search
  cases k with
  | zero =>
    have free := (endsAt_behind behind _).mp last
    have page : ∃ page < pageCount, isFree eeprom page := by
      refine ⟨suggested % pageCount, Nat.mod_lt _ (by decide), ?_⟩
      rw [isFree, readPage, Nat.mod_mod]
      exact free
    have small := (real page).1
    rw [deliveredAt, if_pos free] at small
    exact absurd small (Nat.not_lt.mpr behind)
  | succ k =>
    have free := (endsAt_behind behind _).mp last
    have inside : following^[k + 1] suggested < pageCount := by
      rw [following_iterate_behind behind]
      exact Nat.mod_lt _ (by decide)
    have nonzero : following^[k + 1] suggested ≠ 0 := by
      intro same
      rw [deliveredAt, if_pos free] at zero
      exact zero.mp same _ inside free
    refine ⟨fun first => before 0 (Nat.succ_pos k) (.inl first), fun superblock => ?_, _, inside, free⟩
    cases k with
    | zero => exact nonzero (following_iterate_behind behind 0)
    | succ k =>
      apply before 1 (by omega)
      rw [following_iterate_behind behind 0]
      exact .inl superblock

theorem finds_of_used (first : ¬isFree eeprom suggested) (superblock : ¬isFree eeprom 0)
    (free : ∃ page < pageCount, isFree eeprom page) : FindsFreePage eeprom suggested := by
  have inside := (Nat.find_spec free).1
  have found := (Nat.find_spec free).2
  have before page (less : page < Nat.find free) : ¬isFree eeprom page := fun early =>
    Nat.find_min free less ⟨less.trans inside, early⟩
  generalize Nat.find free = page at inside found before
  have place : following^[page + 1] suggested = page := by
    rw [following_iterate_behind behind, Nat.mod_eq_of_lt inside]
  refine ⟨page, searchFree_eq_some.mpr ⟨page + 1, Nat.succ_lt_succ inside, ?_, ?_, ?_⟩,
    fun _ => ⟨inside, found⟩, fun zero => ?_, fun none => absurd found (none page inside)⟩
  · intro j less
    rw [endsAt_behind behind]
    cases j with
    | zero => exact first
    | succ j =>
      rw [following_iterate_behind behind, Nat.mod_eq_of_lt (by omega)]
      exact before j (Nat.lt_of_succ_lt_succ less)
  · rw [endsAt_behind behind, place]
    exact found
  · rw [place, deliveredAt, if_pos found]
  · rw [zero] at found
    exact absurd found superblock

theorem finds_behind :
    FindsFreePage eeprom suggested ↔
      ¬isFree eeprom suggested ∧ ¬isFree eeprom 0 ∧ ∃ page < pageCount, isFree eeprom page := by
  constructor
  · exact used_of_finds behind
  · rintro ⟨first, superblock, free⟩
    exact finds_of_used behind first superblock free

end Behind

/-- A start behind the last page is good only where it comes to a free page that is not the superblock. -/
theorem findsFreePage_iff :
    FindsFreePage eeprom suggested ↔
      suggested < pageCount ∧
          (isFree eeprom 0 →
            0 < suggested ∧ ∃ page < pageCount, suggested ≤ page ∧ isFree eeprom page) ∨
        pageCount ≤ suggested ∧ ¬isFree eeprom suggested ∧ ¬isFree eeprom 0 ∧
          ∃ page < pageCount, isFree eeprom page := by
  rcases Nat.lt_or_ge suggested pageCount with inside | behind
  · rw [and_iff_right inside, or_iff_left fun case => absurd case.1 (Nat.not_le.mpr inside)]
    exact ⟨free_before inside, finds_inside inside⟩
  · rw [and_iff_right behind, or_iff_right fun case => absurd case.1 (Nat.not_lt.mpr behind)]
    exact finds_behind behind

/-- An EEPROM without a free page. -/
def fullEeprom : Device := fun page _ => if page = 0 then magicSuperblock else magicData

theorem fullEeprom_used (page : Nat) : ¬isFree fullEeprom page := by
  rw [isFree, readPage, fullEeprom]
  split_ifs <;> decide

/-- The search from the number behind the last page does not end. -/
theorem fullEeprom_searched : ¬FindsFreePage fullEeprom 512 := by
  rw [finds_behind (le_refl 512)]
  rintro ⟨-, -, page, -, free⟩
  exact fullEeprom_used page free

end Ethersex.Eeprom
