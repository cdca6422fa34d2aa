import Teleop.Proofs.Numeric.Shortest
import Teleop.Proofs.Token.Number

/-!
# Numbers in tokens are written in plain notation

A token writes a whole number of at most fifteen digits with the digits of the integer, and leaves every
other number to plain notation. The two ways agree wherever the first one is taken, but for the sign of the
negative zero (`numberText_eq_plain`), so a reader of the wire sees one notation: the shortest digits that
read back, which for a whole number of any size are digits alone.
-/

namespace Teleop.Token

open Numeric Binary

variable {x : Binary64}

/-- A whole number but zero is written with the digits of a natural number, and with its own digits if it
has at most fifteen. -/
theorem exists_plain_of_toInt? {n : Int} (h : x.toInt? = some n) (hn : n ≠ 0) :
    ∃ k, x.plain = (if n < 0 then ['-'] else []) ++ toDigits k ∧
      (ofInt k : Binary64) = ofInt n.natAbs ∧ (n.natAbs < 10 ^ (15 : Nat) → k = n.natAbs) := by
  obtain ⟨s, m, hr, rfl, rfl⟩ := exists_of_toInt? h
  have hm : m ≠ 0 := by
    rintro rfl
    cases s <;> exact hn rfl
  obtain ⟨k, hplain, hvalue, hown⟩ :=
    exists_plain_whole s (Nat.pos_of_ne_zero hm) hr (by decide) (by decide)
  have hsign : signed s m < 0 ↔ s = true :=
    decide_eq_true_iff.symm.trans (by rw [decide_signed_neg s hm])
  rw [natAbs_signed]
  simp only [hsign]
  exact ⟨k, hplain, hvalue, hown⟩

/-- A whole number but zero is written alike in both ways. -/
theorem numberText_of_toInt? {n : Int} (h : x.toInt? = some n) (hn : n ≠ 0) : numberText x = x.plain := by
  rw [numberText, h]
  dsimp only
  split
  · rename_i hsmall
    obtain ⟨k, hplain, -, hown⟩ := exists_plain_of_toInt? h hn
    rw [hplain, hown (Nat.lt_of_lt_of_eq hsmall (by decide))]
  · rfl

theorem eq_zero_of_toInt? (h : x.toInt? = some 0) : ∃ s, x = .zero s := by
  obtain ⟨s, m, hr, rfl, hm⟩ := exists_of_toInt? h
  have hzero : m = 0 := by rw [← natAbs_signed s m, ← hm, Int.natAbs_zero]
  subst hzero
  exact ⟨s, by simp [zero]⟩

/-- The text of a number is that of plain notation but for the negative zero, which has no sign. A whole
number is written with digits alone, behind a minus sign where it is negative: they denote a number that is
rounded to it, and up to fifteen digits it is the number itself. -/
theorem numberText_eq_plain (x : Binary64) :
    numberText x = (if x = .zero true then ['0'] else x.plain) ∧
    ∀ n, x.toInt? = some n → ∃ k : Nat,
      numberText x = (if n < 0 then ['-'] else []) ++ toDigits k ∧
      (ofInt k : Binary64) = ofInt n.natAbs ∧ (n.natAbs < 10 ^ (15 : Nat) → k = n.natAbs) := by
  have hzero (h : x = .zero true) : x.toInt? = some 0 := h ▸ toInt?_zero true _
  cases hx : x.toInt? with
  | none =>
    have hne : x ≠ .zero true := fun h => nomatch hx.symm.trans (hzero h)
    refine ⟨?_, nofun⟩
    rw [if_neg hne, numberText, hx]
  | some n =>
    by_cases hn : n = 0
    · subst hn
      obtain ⟨s, rfl⟩ := eq_zero_of_toInt? hx
      have htext := numberText_of_zero hx
      refine ⟨?_, fun n hn => ⟨0, ?_⟩⟩
      · cases s with
        | true => rw [if_pos rfl, htext]
        | false =>
          rw [if_neg (by decide), htext]
          rfl
      · obtain rfl := Option.some.inj hn
        exact ⟨htext, rfl, fun _ => rfl⟩
    · have hne : x ≠ .zero true := fun h => hn (Option.some.inj (hx.symm.trans (hzero h)))
      rw [if_neg hne, numberText_of_toInt? hx hn]
      refine ⟨rfl, fun n' hn' => ?_⟩
      obtain rfl := Option.some.inj hn'
      exact exists_plain_of_toInt? hx hn

/-- The largest odd number of the format has sixteen digits, so it is left to plain notation. -/
theorem numberText_eq_plain_sixteen :
    (ofInt (9007199254740991 : Nat) : Binary64).toInt? = some 9007199254740991 ∧
    ∃ k : Nat, numberText (ofInt (9007199254740991 : Nat)) = toDigits k ∧
      (ofInt k : Binary64) = ofInt (9007199254740991 : Nat) := by
  have hwhole : (ofInt (9007199254740991 : Nat) : Binary64).toInt? = some 9007199254740991 :=
    toInt?_ofInt (by decide) (by decide)
  obtain ⟨k, htext, hvalue, -⟩ := (numberText_eq_plain _).2 _ hwhole
  rw [if_neg (by decide), List.nil_append] at htext
  exact ⟨hwhole, k, htext, hvalue⟩

end Teleop.Token
