import AudioCrash.EditPass.Table
import AudioCrash.Lib.EditMetric

/-!
# What the number of edits measures

The number of edits of `edit_pass`, and so the size that `the_edit_pass` returns, is a metric on
words: it does not matter which word is called the reference, and a word in between never makes
the way shorter. What the two words share at their ends can be cut away before they are compared,
and reading both backwards changes nothing.
-/

namespace AudioCrash.EditPass

open EditScript

/-- **The number of edits is a metric**, for which a shared frame and the direction of reading do
not count, and which adds up at most over two parts. -/
theorem editPass_metric (word1 word2 word3 : List ℤ) :
    ((editPass word1 word2).length = 0 ↔ word1 = word2) ∧
      (editPass word2 word1).length = (editPass word1 word2).length ∧
      (editPass word1 word3).length ≤
        (editPass word1 word2).length + (editPass word2 word3).length ∧
      (∀ front back : List ℤ, (editPass (front ++ word1 ++ back) (front ++ word2 ++ back)).length =
        (editPass word1 word2).length) ∧
      (editPass word1.reverse word2.reverse).length = (editPass word1 word2).length ∧
      (∀ word1' word2' : List ℤ, (editPass (word1 ++ word1') (word2 ++ word2')).length ≤
        (editPass word1 word2).length + (editPass word1' word2').length) ∧
      word1.length ≤ word2.length + (editPass word1 word2).length := by
  simp only [length_editPass]
  refine ⟨editDistance_eq_zero_iff, editDistance_comm _ _, editDistance_triangle _ _ _, ?_,
    editDistance_reverse _ _, ?_, length_le_add_editDistance _ _⟩
  · intro front back
    exact editDistance_frame front word1 word2 back
  · intro word1' word2'
    exact editDistance_append_append word1 word1' word2 word2'

end AudioCrash.EditPass
