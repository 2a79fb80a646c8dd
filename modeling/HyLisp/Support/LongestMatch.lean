import Mathlib.Data.List.Basic
import Mathlib.Order.Basic
import Mathlib.Order.Nat

/-!
# Longest match in an unordered table

A table lookup that keeps a running best entry and replaces it by any later
matching entry that is at least as long.  The result is a longest matching
entry, and the last one among those; when all matching entries have the same
length, it is simply the last match.
-/

namespace LongestMatch

variable {ε : Type*}

/-- `e` is a longest entry of `table` among those that match. -/
structure IsLongest (isMatch : ε → Bool) (len : ε → ℕ)
    (table : List ε) (e : ε) : Prop where
  mem : e ∈ table
  matches_self : isMatch e = true
  longest : ∀ e' ∈ table, isMatch e' = true → len e' ≤ len e

/-- The running best entry over a table. -/
def scan (isMatch : ε → Bool) (len : ε → ℕ) : List ε → Option ε → Option ε
  | [], best => best
  | e :: rest, best =>
      scan isMatch len rest
        (if isMatch e && best.all fun b => len b ≤ len e then some e else best)

/-- The running best entry never shrinks, and it dominates every match. -/
theorem scan_some_spec {isMatch : ε → Bool} {len : ε → ℕ} {table : List ε}
    {best : Option ε} {e : ε} (h : scan isMatch len table best = some e) :
    (best = some e ∨ e ∈ table ∧ isMatch e = true) ∧
      (∀ b, best = some b → len b ≤ len e) ∧
      ∀ e' ∈ table, isMatch e' = true → len e' ≤ len e := by
  induction table generalizing best with
  | nil =>
      rw [scan] at h
      subst h
      refine ⟨Or.inl rfl, ?_, by simp⟩
      intro b hb
      rw [Option.some.inj hb]
  | cons a rest ih =>
      rw [scan] at h
      obtain ⟨hfrom, hbest, hrest⟩ := ih h
      by_cases htake : (isMatch a && best.all fun b => len b ≤ len a) = true
      · rw [if_pos htake] at hfrom hbest
        rw [Bool.and_eq_true] at htake
        have ha : len a ≤ len e := hbest a rfl
        refine ⟨?_, ?_, ?_⟩
        · rcases hfrom with hae | ⟨hmem, hmatch⟩
          · rw [← Option.some.inj hae]
            exact Or.inr ⟨List.mem_cons_self, htake.1⟩
          · exact Or.inr ⟨List.mem_cons_of_mem _ hmem, hmatch⟩
        · intro b hb
          have hba : len b ≤ len a := by simpa [hb] using htake.2
          exact le_trans hba ha
        · intro e' he' hmatch
          rcases List.mem_cons.mp he' with rfl | he'
          · exact ha
          · exact hrest e' he' hmatch
      · rw [if_neg htake] at hfrom hbest
        refine ⟨?_, hbest, ?_⟩
        · rcases hfrom with hbe | ⟨hmem, hmatch⟩
          · exact Or.inl hbe
          · exact Or.inr ⟨List.mem_cons_of_mem _ hmem, hmatch⟩
        · intro e' he' hmatch
          rcases List.mem_cons.mp he' with rfl | he'
          · -- the head matches but was not taken: a longer best entry exists
            cases hb : best with
            | none => simp [hmatch, hb] at htake
            | some b =>
                have hlt : len e' < len b := by simpa [hmatch, hb] using htake
                exact le_trans hlt.le (hbest b hb)
          · exact hrest e' he' hmatch

/-- The scan of a whole table finds a longest matching entry. -/
theorem scan_isLongest {isMatch : ε → Bool} {len : ε → ℕ} {table : List ε}
    {e : ε} (h : scan isMatch len table none = some e) :
    IsLongest isMatch len table e := by
  obtain ⟨hfrom, -, hlongest⟩ := scan_some_spec h
  rcases hfrom with hnone | ⟨hmem, hmatch⟩
  · cases hnone
  · exact ⟨hmem, hmatch, hlongest⟩

/-- Among the longest matching entries the scan finds the last one. -/
theorem find?_reverse_of_scan {isMatch : ε → Bool} {len : ε → ℕ}
    {table : List ε} {best : Option ε} {e : ε}
    (h : scan isMatch len table best = some e) :
    (table.reverse.find? fun a => isMatch a && len a == len e).or best =
      some e := by
  induction table generalizing best with
  | nil => simpa [scan] using h
  | cons a rest ih =>
      rw [scan] at h
      have hrest := ih h
      rw [List.reverse_cons, List.find?_append]
      cases hfound : rest.reverse.find? fun b => isMatch b && len b == len e with
      | some b =>
          rw [hfound] at hrest
          simpa using hrest
      | none =>
          rw [hfound, Option.none_or] at hrest
          by_cases htake : (isMatch a && best.all fun b => len b ≤ len a) = true
          · rw [if_pos htake] at hrest
            obtain rfl := Option.some_inj.mp hrest
            rw [Bool.and_eq_true] at htake
            simp [htake.1]
          · rw [if_neg htake] at hrest
            subst hrest
            have hshorter : (isMatch a && len a == len e) = false := by
              rw [Option.all_some, Bool.and_eq_true, decide_eq_true_iff] at htake
              by_contra hmatch
              simp only [Bool.not_eq_false, Bool.and_eq_true, beq_iff_eq] at hmatch
              exact htake ⟨hmatch.1, hmatch.2.ge⟩
            simp [hshorter]

theorem scan_isSome_of_best {isMatch : ε → Bool} {len : ε → ℕ}
    {table : List ε} {best : Option ε} (h : best.isSome) :
    (scan isMatch len table best).isSome := by
  induction table generalizing best with
  | nil => exact h
  | cons a rest ih =>
      rw [scan]
      apply ih
      split
      · rfl
      · exact h

/-- The scan of a whole table fails exactly when nothing matches. -/
theorem scan_eq_none_iff {isMatch : ε → Bool} {len : ε → ℕ} {table : List ε} :
    scan isMatch len table none = none ↔ ∀ e ∈ table, isMatch e = false := by
  induction table with
  | nil => simp [scan]
  | cons a rest ih =>
      by_cases ha : isMatch a = true
      · have hsome : (scan isMatch len rest (some a)).isSome :=
          scan_isSome_of_best rfl
        simp only [scan, ha, Option.all_none, Bool.and_self, if_true,
          List.forall_mem_cons, Bool.true_eq_false, false_and, iff_false]
        intro hnone
        simp [hnone] at hsome
      · simp only [Bool.not_eq_true] at ha
        simpa [scan, ha] using ih

/-- When all matching entries have the same length, the scan finds the last
match. -/
theorem scan_eq_last {isMatch : ε → Bool} {len : ε → ℕ} {n : ℕ}
    (hlen : ∀ e, isMatch e = true → len e = n) (table : List ε)
    {best : Option ε} (hbest : ∀ b, best = some b → len b ≤ n) :
    scan isMatch len table best = (table.reverse.find? isMatch).or best := by
  induction table generalizing best with
  | nil => simp [scan]
  | cons a rest ih =>
      rw [scan, List.reverse_cons, List.find?_append]
      by_cases ha : isMatch a = true
      · have hall : (best.all fun b => len b ≤ len a) = true := by
          cases hb : best with
          | none => rfl
          | some b => simpa [hlen a ha] using hbest b hb
        rw [if_pos (by simp [ha, hall]), ih]
        · simp [ha]
        · intro b hb
          rw [← Option.some.inj hb]
          exact (hlen a ha).le
      · simp only [Bool.not_eq_true] at ha
        rw [if_neg (by simp [ha]), ih hbest]
        simp [ha]

/-- A longest match among the entries that pass a test. -/
theorem isLongest_filter_iff {test isMatch : ε → Bool} {len : ε → ℕ} {table : List ε} {e : ε} :
    IsLongest isMatch len (table.filter test) e ↔
      IsLongest (fun e => test e && isMatch e) len table e := by
  constructor
  · rintro ⟨hmem, hmatch, hlongest⟩
    obtain ⟨htable, htest⟩ := List.mem_filter.mp hmem
    refine ⟨htable, Bool.and_eq_true_iff.mpr ⟨htest, hmatch⟩, fun e' he' hmatch' => ?_⟩
    obtain ⟨htest', hmatch'⟩ := Bool.and_eq_true_iff.mp hmatch'
    exact hlongest e' (List.mem_filter.mpr ⟨he', htest'⟩) hmatch'
  · rintro ⟨hmem, hmatch, hlongest⟩
    obtain ⟨htest, hmatch⟩ := Bool.and_eq_true_iff.mp hmatch
    refine ⟨List.mem_filter.mpr ⟨hmem, htest⟩, hmatch, fun e' he' hmatch' => ?_⟩
    obtain ⟨htable', htest'⟩ := List.mem_filter.mp he'
    exact hlongest e' htable' (Bool.and_eq_true_iff.mpr ⟨htest', hmatch'⟩)

/-- In a table that is sorted by length, the last match is the longest one. -/
theorem find?_reverse_iff_isLongest {isMatch : ε → Bool} {len : ε → ℕ} {table : List ε}
    {e : ε} (hsorted : table.Pairwise fun a b => len a < len b) :
    table.reverse.find? isMatch = some e ↔ IsLongest isMatch len table e := by
  constructor
  · intro hfind
    obtain ⟨hmatch, behind, before, heq, hbehind⟩ := List.find?_eq_some_iff_append.mp hfind
    have htable : table = before.reverse ++ e :: behind.reverse := by
      rw [← List.reverse_reverse table, heq]
      simp
    rw [htable] at hsorted
    obtain ⟨-, -, hlonger⟩ := List.pairwise_append.mp hsorted
    refine ⟨by rw [htable]; simp, hmatch, fun e' he' hmatch' => ?_⟩
    rw [htable, List.mem_append, List.mem_cons, List.mem_reverse] at he'
    rcases he' with hb | rfl | ha
    · exact (hlonger e' (List.mem_reverse.mpr hb) e List.mem_cons_self).le
    · exact Nat.le_refl _
    · have hnone := hbehind e' (List.mem_reverse.mp ha)
      rw [hmatch'] at hnone
      cases hnone
  · rintro ⟨hmem, hmatch, hlongest⟩
    obtain ⟨before, behind, rfl⟩ := List.append_of_mem hmem
    obtain ⟨-, hcons, -⟩ := List.pairwise_append.mp hsorted
    obtain ⟨hlonger, -⟩ := List.pairwise_cons.mp hcons
    apply List.find?_eq_some_iff_append.mpr
    refine ⟨hmatch, behind.reverse, before.reverse, by simp, fun e' he' => ?_⟩
    rw [List.mem_reverse] at he'
    rw [Bool.not_eq_true']
    by_contra hmatch'
    have hle := hlongest e' (by simp [he']) (eq_true_of_ne_false hmatch')
    exact Nat.not_le.mpr (hlonger e' he') hle

end LongestMatch
