import HyLisp.Support.Transition
import Mathlib.Data.Int.Notation
import Mathlib.Tactic.Linarith

/-!
# Differences of times

The event loops subtract one time, `now`, from the deadlines of all lookups.  For the
subtraction `timespec_subtract` carries a second of the subtrahend over to its
nanoseconds, or back, and leaves it so for the next call.  This module follows the
subtrahend through any sequence of calls, and says which of them give the difference.

Signed overflow of the seconds is undefined, and modelled as a failure.
-/

namespace HyLisp.ControlPlane

open Transition

/-! ## The subtraction -/

/-- `struct timespec` -/
structure TimeSpec where
  tvSec : ℤ
  tvNsec : ℤ
  deriving DecidableEq, Repr

/-- The nanoseconds of a second. -/
def nsecPerSec : ℤ := 1000000000

/-- The time that is represented, in nanoseconds. -/
def TimeSpec.time (t : TimeSpec) : ℤ :=
  t.tvSec * nsecPerSec + t.tvNsec

/-- The values of `time_t`. -/
def InTimeT (n : ℤ) : Prop :=
  -9223372036854775808 ≤ n ∧ n ≤ 9223372036854775807

instance (n : ℤ) : Decidable (InTimeT n) :=
  inferInstanceAs (Decidable (_ ∧ _))

/-- The result of an operation on seconds. -/
def timeT (n : ℤ) : Option ℤ :=
  if InTimeT n then some n else none

/-- The first branch of `timespec_subtract`: seconds of `y` are taken from its
nanoseconds. -/
def carryDown (x y : TimeSpec) : Option TimeSpec :=
  if x.tvNsec < y.tvNsec then
    let sec := (y.tvNsec - x.tvNsec).tdiv nsecPerSec + 1
    (timeT (y.tvSec + sec)).map fun tvSec => ⟨tvSec, y.tvNsec - nsecPerSec * sec⟩
  else some y

/-- The second branch: seconds of `y` are added to its nanoseconds. -/
def carryUp (x y : TimeSpec) : Option TimeSpec :=
  if x.tvNsec - y.tvNsec > nsecPerSec then
    let sec := (x.tvNsec - y.tvNsec).tdiv nsecPerSec
    (timeT (y.tvSec - sec)).map fun tvSec => ⟨tvSec, y.tvNsec + nsecPerSec * sec⟩
  else some y

/-- What a call leaves: `res`, `y`, and whether the result is said to be negative. -/
structure Subtraction where
  res : TimeSpec
  y : TimeSpec
  negative : Bool
  deriving DecidableEq, Repr

/-- `timespec_subtract` -/
def timespecSubtract (x y : TimeSpec) : Option Subtraction := do
  let y ← carryDown x y
  let y ← carryUp x y
  let tvSec ← timeT (x.tvSec - y.tvSec)
  return ⟨⟨tvSec, x.tvNsec - y.tvNsec⟩, y, decide (x.tvSec < y.tvSec)⟩

/-- The subtrahend after a call, for the next one. -/
def nextSubtrahend (y x : TimeSpec) : Option TimeSpec :=
  (timespecSubtract x y).map Subtraction.y

/-! ## One call -/

/-- The subtrahend with the second that a call carries. -/
def carried (x y : TimeSpec) : TimeSpec :=
  if x.tvNsec < y.tvNsec then ⟨y.tvSec + 1, y.tvNsec - nsecPerSec⟩
  else if x.tvNsec > y.tvNsec + nsecPerSec then ⟨y.tvSec - 1, y.tvNsec + nsecPerSec⟩
  else y

/-- The seconds of the call do not overflow: those of `y`, of which one is carried over
where its nanoseconds are more than those of `x`, and one back where they are more than a
second less, and the difference. -/
def SecondsFit (x y : TimeSpec) : Prop :=
  if x.tvNsec < y.tvNsec then InTimeT (y.tvSec + 1) ∧ InTimeT (x.tvSec - (y.tvSec + 1))
  else if x.tvNsec > y.tvNsec + nsecPerSec then
    InTimeT (y.tvSec - 1) ∧ InTimeT (x.tvSec - (y.tvSec - 1))
  else InTimeT y.tvSec ∧ InTimeT (x.tvSec - y.tvSec)

instance (x y : TimeSpec) : Decidable (SecondsFit x y) :=
  inferInstanceAs (Decidable (if x.tvNsec < y.tvNsec then _ ∧ _
    else if x.tvNsec > y.tvNsec + nsecPerSec then _ ∧ _ else _ ∧ _))

/-- The nanoseconds of `y` are within one second above and two seconds below those
of `x`. -/
def NsecNear (x y : TimeSpec) : Prop :=
  y.tvNsec - x.tvNsec < nsecPerSec ∧ x.tvNsec - y.tvNsec < 2 * nsecPerSec

section Call

variable {x y : TimeSpec}

theorem secondsFit_iff : SecondsFit x y ↔
    InTimeT (carried x y).tvSec ∧ InTimeT (x.tvSec - (carried x y).tvSec) := by
  rw [SecondsFit, carried]
  split
  · rfl
  split
  · rfl
  · rfl

theorem time_carried (x y : TimeSpec) : (carried x y).time = y.time := by
  rw [carried]
  split
  · simp only [TimeSpec.time]
    linarith
  split
  · simp only [TimeSpec.time]
    linarith
  · rfl

/-- Of the two branches at most one is taken, for one second. -/
theorem carryDown_bind_carryUp (hnear : NsecNear x y) (hy : InTimeT y.tvSec) :
    ((carryDown x y).bind fun y => carryUp x y) =
      if InTimeT (carried x y).tvSec then some (carried x y) else none := by
  obtain ⟨habove, hbelow⟩ := hnear
  rw [carryDown, carried]
  by_cases hdown : x.tvNsec < y.tvNsec
  · have hsec : (y.tvNsec - x.tvNsec).tdiv nsecPerSec = 0 :=
      Int.tdiv_eq_zero_of_lt (by omega) habove
    have hstay : ¬ x.tvNsec - (y.tvNsec - nsecPerSec) > nsecPerSec := by omega
    rw [if_pos hdown, if_pos hdown, hsec]
    dsimp only
    rw [Int.zero_add, Int.mul_one, timeT]
    by_cases hfits : InTimeT (y.tvSec + 1)
    · rw [if_pos hfits, if_pos hfits, Option.map_some, Option.bind_some, carryUp,
        if_neg hstay]
    · rw [if_neg hfits, if_neg hfits]
      rfl
  · rw [if_neg hdown, if_neg hdown, Option.bind_some, carryUp]
    by_cases hup : x.tvNsec > y.tvNsec + nsecPerSec
    · have hsec : (x.tvNsec - y.tvNsec).tdiv nsecPerSec = 1 := by
        rw [Int.tdiv_eq_ediv_of_nonneg (by omega)]
        exact Int.ediv_eq_iff_of_pos (by decide) |>.mpr ⟨by omega, by omega⟩
      have hcarry : x.tvNsec - y.tvNsec > nsecPerSec := by omega
      rw [if_pos hcarry, if_pos hup, hsec]
      dsimp only
      rw [Int.mul_one, timeT]
      by_cases hfits : InTimeT (y.tvSec - 1)
      · rw [if_pos hfits, if_pos hfits, Option.map_some]
      · rw [if_neg hfits, if_neg hfits]
        rfl
    · have hcarry : ¬ x.tvNsec - y.tvNsec > nsecPerSec := by omega
      rw [if_neg hcarry, if_neg hup, if_pos hy]

/-- A call subtracts the subtrahend with its carry. -/
theorem timespecSubtract_eq (hnear : NsecNear x y) (hy : InTimeT y.tvSec) :
    timespecSubtract x y =
      if SecondsFit x y then
        some ⟨⟨x.tvSec - (carried x y).tvSec, x.tvNsec - (carried x y).tvNsec⟩,
          carried x y, decide (x.tvSec < (carried x y).tvSec)⟩
      else none := by
  have hcall : timespecSubtract x y =
      ((carryDown x y).bind fun y => carryUp x y).bind fun y =>
        (timeT (x.tvSec - y.tvSec)).bind fun tvSec =>
          some ⟨⟨tvSec, x.tvNsec - y.tvNsec⟩, y, decide (x.tvSec < y.tvSec)⟩ :=
    (Option.bind_assoc _ _ _).symm
  rw [hcall, carryDown_bind_carryUp hnear hy]
  by_cases hfits : InTimeT (carried x y).tvSec
  · rw [if_pos hfits, Option.bind_some, timeT]
    by_cases hdiff : InTimeT (x.tvSec - (carried x y).tvSec)
    · have hboth : SecondsFit x y := secondsFit_iff.mpr ⟨hfits, hdiff⟩
      rw [if_pos hdiff, if_pos hboth, Option.bind_some]
    · have hnot : ¬ SecondsFit x y := fun h => hdiff (secondsFit_iff.mp h).2
      rw [if_neg hdiff, if_neg hnot]
      rfl
  · have hnot : ¬ SecondsFit x y := fun h => hfits (secondsFit_iff.mp h).1
    rw [if_neg hfits, if_neg hnot]
    rfl

end Call

/-! ## All calls with one subtrahend -/

/-- A time as clocks and deadlines give it. -/
structure ClockTime extends TimeSpec where
  inTimeT : InTimeT tvSec
  nsec_nonneg : 0 ≤ tvNsec
  nsec_lt : tvNsec < nsecPerSec

/-- What calls make of the subtrahend: it is as it was, or a second of it is carried. -/
def CarryOf (now : ClockTime) (y : TimeSpec) : Prop :=
  y = now.toTimeSpec ∨
    y = ⟨now.tvSec + 1, now.tvNsec - nsecPerSec⟩ ∧ InTimeT y.tvSec ∧ 0 < now.tvNsec

section Calls

variable {now : ClockTime} {x : ClockTime} {y : TimeSpec}

theorem CarryOf.time_eq (h : CarryOf now y) : y.time = now.time := by
  obtain rfl | ⟨rfl, -, -⟩ := h
  · rfl
  · simp only [TimeSpec.time]
    linarith

theorem CarryOf.inTimeT (h : CarryOf now y) : InTimeT y.tvSec := by
  obtain rfl | ⟨-, hfits, -⟩ := h
  · exact now.inTimeT
  · exact hfits

theorem CarryOf.nsecNear (h : CarryOf now y) (x : ClockTime) : NsecNear x.toTimeSpec y := by
  have hx := x.nsec_nonneg
  have hx' := x.nsec_lt
  have hnow := now.nsec_nonneg
  have hnow' := now.nsec_lt
  rw [NsecNear]
  obtain rfl | ⟨rfl, -, hpos⟩ := h
  · omega
  · dsimp only
    omega

/-- A call leaves one of the two again. -/
theorem CarryOf.carried (h : CarryOf now y)
    (hfits : InTimeT (ControlPlane.carried x.toTimeSpec y).tvSec) :
    CarryOf now (ControlPlane.carried x.toTimeSpec y) := by
  have hx := x.nsec_nonneg
  have hx' := x.nsec_lt
  have hnow' := now.nsec_lt
  rw [ControlPlane.carried] at hfits ⊢
  obtain rfl | ⟨rfl, hcarry, hpos⟩ := h
  · by_cases hdown : x.tvNsec < now.tvNsec
    · rw [if_pos hdown] at hfits ⊢
      exact Or.inr ⟨rfl, hfits, lt_of_le_of_lt hx hdown⟩
    · have hup : ¬ x.tvNsec > now.tvNsec + nsecPerSec := by
        have := now.nsec_nonneg
        omega
      rw [if_neg hdown, if_neg hup]
      exact Or.inl rfl
  · have hdown : ¬ x.tvNsec < now.tvNsec - nsecPerSec := by omega
    rw [if_neg hdown] at hfits ⊢
    split
    · refine Or.inl ?_
      simp only [Int.add_sub_cancel, Int.sub_add_cancel]
    · exact Or.inr ⟨rfl, hcarry, hpos⟩

theorem CarryOf.next {x : ClockTime} {y' : TimeSpec} (h : CarryOf now y)
    (hnext : nextSubtrahend y x.toTimeSpec = some y') : CarryOf now y' := by
  rw [nextSubtrahend, timespecSubtract_eq (h.nsecNear x) h.inTimeT] at hnext
  split at hnext
  next hfits =>
    obtain rfl := Option.some_inj.mp hnext
    exact h.carried (secondsFit_iff.mp hfits).1
  next => cases hnext

/-- The nanoseconds of the difference, as they stand in the result, are normalised unless
they are those of a whole second. -/
theorem CarryOf.nsec_carried (h : CarryOf now y) (x : ClockTime) :
    0 ≤ x.tvNsec - (ControlPlane.carried x.toTimeSpec y).tvNsec ∧
      (x.tvNsec - (ControlPlane.carried x.toTimeSpec y).tvNsec < nsecPerSec ↔
        x.tvNsec ≠ y.tvNsec + nsecPerSec) := by
  have hnear := h.nsecNear x
  rw [NsecNear] at hnear
  rw [ControlPlane.carried]
  have hpos : 0 < nsecPerSec := by decide
  by_cases hdown : x.tvNsec < y.tvNsec
  · rw [if_pos hdown]
    dsimp only
    omega
  · rw [if_neg hdown]
    by_cases hup : x.tvNsec > y.tvNsec + nsecPerSec
    · rw [if_pos hup]
      dsimp only
      omega
    · rw [if_neg hup]
      omega

end Calls

/-- The call gives the difference of the times in normalised form, says whether it is
negative, and leaves the time of the subtrahend. -/
def SubtractsExactly (now : ClockTime) (y : TimeSpec) (x : ClockTime) : Prop :=
  ∃ r, timespecSubtract x.toTimeSpec y = some r ∧
    r.res.time = x.time - now.time ∧
    0 ≤ r.res.tvNsec ∧ r.res.tvNsec < nsecPerSec ∧
    (r.negative = true ↔ x.time < now.time) ∧
    r.y.time = now.time

/-- The nanoseconds are not a whole second above those of the subtrahend as it stands, and
the seconds do not overflow. -/
def NoWholeSecond (y : TimeSpec) (x : ClockTime) : Prop :=
  x.tvNsec ≠ y.tvNsec + nsecPerSec ∧ SecondsFit x.toTimeSpec y

instance (y : TimeSpec) (x : ClockTime) : Decidable (NoWholeSecond y x) :=
  inferInstanceAs (Decidable (_ ∧ _))

/-- A call is exact where it meets no whole second. -/
theorem subtractsExactly_iff_noWholeSecond {now x : ClockTime} {y : TimeSpec}
    (h : CarryOf now y) : SubtractsExactly now y x ↔ NoWholeSecond y x := by
  have hcall := timespecSubtract_eq (h.nsecNear x) h.inTimeT
  obtain ⟨hnonneg, hwhole⟩ := h.nsec_carried x
  constructor
  · rintro ⟨r, hr, -, -, hlt, -, -⟩
    rw [hcall] at hr
    split at hr
    next hfits =>
      obtain rfl := Option.some_inj.mp hr
      exact ⟨hwhole.mp hlt, hfits⟩
    next => cases hr
  · rintro ⟨hne, hfits⟩
    have hlt := hwhole.mpr hne
    have htime : (carried x.toTimeSpec y).time = now.time :=
      (time_carried x.toTimeSpec y).trans h.time_eq
    rw [if_pos hfits] at hcall
    refine ⟨_, hcall, ?_, hnonneg, hlt, ?_, htime⟩
    · rw [← htime]
      simp only [TimeSpec.time]
      linarith
    · rw [← htime, decide_eq_true_iff]
      simp only [TimeSpec.time]
      rw [nsecPerSec] at hlt ⊢
      omega

/-- In every sequence of calls with one subtrahend, all calls are exact if and only if none
meets a whole second. -/
theorem along_subtractsExactly_iff (now : ClockTime) (xs : List ClockTime) :
    Along (fun y x => nextSubtrahend y x.toTimeSpec) (SubtractsExactly now) now.toTimeSpec xs ↔
      Along (fun y x => nextSubtrahend y x.toTimeSpec) NoWholeSecond now.toTimeSpec xs :=
  @along_iff_of_invariant _ _ _ (CarryOf now) _ _ (fun hinv _ hnext => hinv.next hnext)
    (fun hinv => subtractsExactly_iff_noWholeSecond hinv) _ _ (Or.inl rfl)

/-- A deadline a second behind `now`, at the start of the second, carries a second of
`now`; a deadline at `now` itself is then said to be past, by a second less a whole
second. -/
theorem not_along_subtractsExactly_now :
    ¬ ∀ (now : ClockTime) (xs : List ClockTime),
      Along (fun y x => nextSubtrahend y x.toTimeSpec) (SubtractsExactly now)
        now.toTimeSpec xs := by
  intro h
  let now : ClockTime := ⟨⟨100, 5⟩, by decide, by decide, by decide⟩
  let later : ClockTime := ⟨⟨101, 0⟩, by decide, by decide, by decide⟩
  have hcarry : nextSubtrahend now.toTimeSpec later.toTimeSpec =
      some ⟨101, -999999995⟩ := by decide
  obtain ⟨r, hr, -, -, hlt, -, -⟩ := ((h now [later, now]).2 _ hcarry).1
  have hsecond : timespecSubtract now.toTimeSpec ⟨101, -999999995⟩ =
      some ⟨⟨-1, 1000000000⟩, ⟨101, -999999995⟩, true⟩ := by decide
  obtain rfl := Option.some_inj.mp (hsecond.symm.trans hr)
  exact absurd hlt (by decide)

end HyLisp.ControlPlane
