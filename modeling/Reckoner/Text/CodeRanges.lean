/-!
# Code point ranges

A class of characters that no short rule describes is kept as an ascending list of ranges of
code points. Membership stops at the first range that begins above the character asked for, so
a character of the Basic Latin block is settled by the first few ranges.
-/

namespace Reckoner.Text

/-- Ascending ranges of code points, both ends included. -/
abbrev CodeRanges := List (Nat × Nat)

def CodeRanges.contains : CodeRanges → Nat → Bool
  | [], _ => false
  | (lo, hi) :: rest, n => if n < lo then false else n ≤ hi || CodeRanges.contains rest n

/-- A code point that is found lies in a range of the list. -/
theorem CodeRanges.exists_range_of_contains {rs : CodeRanges} {n : Nat}
    (h : CodeRanges.contains rs n = true) : ∃ r ∈ rs, r.1 ≤ n ∧ n ≤ r.2 := by
  induction rs with
  | nil => simp [CodeRanges.contains] at h
  | cons r rest ih =>
    unfold CodeRanges.contains at h
    split at h
    · simp at h
    · next hlo =>
      rcases Bool.or_eq_true _ _ |>.mp h with hhi | hrest
      · exact ⟨r, by simp, Nat.le_of_not_lt hlo, by simpa using hhi⟩
      · obtain ⟨s, hs, hsn⟩ := ih hrest
        exact ⟨s, by simp [hs], hsn⟩

end Reckoner.Text
