import Mathlib
import SyncKernel.Errno

/-!
# Error answers read back

The word of an error, taken as a signed integer, is its code negated (`Errno.toInt_toWord`). Reading
an answer back negates it and looks the code up in a table of its own. The table agrees with the
codes in both directions (`Errno.ofCode?_eq_some`), so an error is found exactly if the answer is
its word (`Errno.ofCode?_neg_eq_some`).

This tells of every answer which error it is, if it is one (`Errno.read_back_exact`), except of the
least integer: that has no negation, so reading it back stops, although it is the word of no error
(`Errno.minValue_ne_toWord`).
-/

namespace SyncKernel.Errno

variable {e : Errno} {ret : Int64}

/-- Every error is in the table, under its code. -/
theorem ofCode?_code (e : Errno) : ofCode? e.code = some e := by
  cases e <;> rfl

/-- The table holds an error under its code and under no other number. -/
theorem ofCode?_eq_some {n : Int} : ofCode? n = some e ↔ (e.code : Int) = n := by
  constructor
  · intro h
    unfold ofCode? at h
    split at h <;> cases h <;> rfl
  · rintro rfl
    exact ofCode?_code e

/-- The word of an error is its code negated, as a signed integer. -/
theorem toInt_toWord (e : Errno) : e.toWord.toInt64.toInt = -(e.code : Int) := by
  cases e <;> rfl

/-- An answer is the word of an error exactly if negating it gives the code. -/
theorem eq_toWord_iff : ret.toUInt64 = e.toWord ↔ (e.code : Int) = -ret.toInt := by
  have hword : ret.toUInt64 = e.toWord ↔ ret.toInt = e.toWord.toInt64.toInt := by
    rw [Int64.toInt_inj]
    constructor
    · intro h
      rw [← h, Int64.toInt64_toUInt64]
    · intro h
      rw [h, UInt64.toUInt64_toInt64]
  rw [hword, toInt_toWord]
  omega

/-- The table holds an error under an answer negated exactly if the answer is the error's word. -/
theorem ofCode?_neg_eq_some : ofCode? (-ret.toInt) = some e ↔ ret.toUInt64 = e.toWord := by
  rw [ofCode?_eq_some, eq_toWord_iff]

/-- The least integer is the word of no error. -/
theorem minValue_ne_toWord (e : Errno) : Int64.minValue.toUInt64 ≠ e.toWord := by
  cases e <;> decide

/-- Reading an answer back stops exactly at the least integer. It tells an error exactly if the
answer is that error's word, and tells that there is none exactly for all other answers. -/
theorem read_back_exact (ret : Int64) :
    (∀ f, ofReturn? ret = .error f ↔ ret = Int64.minValue ∧ f = .negationOverflow) ∧
      (∀ e : Errno, ofReturn? ret = .ok (some e) ↔ ret.toUInt64 = e.toWord) ∧
      (ofReturn? ret = .ok none ↔ ret ≠ Int64.minValue ∧ ∀ e : Errno, ret.toUInt64 ≠ e.toWord) := by
  unfold ofReturn?
  by_cases hmin : ret = Int64.minValue
  · rw [if_pos hmin]
    refine ⟨fun f => ?_, fun e => ?_, ?_⟩
    · simp [hmin, eq_comm]
    · exact ⟨nofun, fun h => absurd (hmin ▸ h) (minValue_ne_toWord e)⟩
    · exact ⟨nofun, fun h => absurd hmin h.1⟩
  · rw [if_neg hmin]
    refine ⟨fun f => ?_, fun e => ?_, ?_⟩
    · exact ⟨nofun, fun h => absurd h.1 hmin⟩
    · rw [Except.ok.injEq, ofCode?_neg_eq_some]
    · rw [Except.ok.injEq, Option.eq_none_iff_forall_ne_some]
      simp only [ne_eq, hmin, not_false_eq_true, true_and, ofCode?_neg_eq_some]

/-- The answer of a call that timed out, one that tells no error, and the least one. -/
theorem read_back_exact_of_timedOut :
    ofReturn? (-110) = .ok (some .timedOut) ∧ ofReturn? 42 = .ok none ∧
      ofReturn? Int64.minValue = .error .negationOverflow ∧
      ∀ e : Errno, Int64.minValue.toUInt64 ≠ e.toWord := by
  refine ⟨((read_back_exact (-110)).2.1 .timedOut).2 (by decide),
    (read_back_exact 42).2.2.2 ⟨by decide, fun e => ?_⟩,
    ((read_back_exact Int64.minValue).1 .negationOverflow).2 ⟨rfl, rfl⟩, minValue_ne_toWord⟩
  cases e <;> decide

end SyncKernel.Errno
