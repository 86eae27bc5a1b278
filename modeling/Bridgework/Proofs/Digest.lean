import Bridgework.Digest
import Bridgework.Proofs.Text.Digit

/-!
# The characters of digests

- `isAlphanum_of_mem_shortDigest` : the first digits of a digest are letters and decimal digits
-/

namespace Bridgework

/-- Hexadecimal digits are letters and digits. -/
theorem Digest.isAlphanum_of_mem_wordText {w : UInt32} {c : Char} (hc : c ∈ wordText w) :
    c.isAlphanum = true := by
  rw [wordText, List.mem_append] at hc
  rcases hc with hc | hc
  · rw [List.eq_of_mem_replicate hc]
    decide
  · exact Text.isAlphanum_of_mem_toDigits (by decide) (by decide) hc

theorem isAlphanum_of_mem_shortDigest {n : Nat} {s : String} {c : Char} (hc : c ∈ (shortDigest n s).toList) :
    c.isAlphanum = true := by
  rw [shortDigest, String.toList_ofList, contentDigest, String.toList_ofList] at hc
  obtain ⟨w, _, hw⟩ := List.mem_flatMap.1 (List.mem_of_mem_take hc)
  exact Digest.isAlphanum_of_mem_wordText hw

end Bridgework
