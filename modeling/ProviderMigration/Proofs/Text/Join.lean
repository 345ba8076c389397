import ProviderMigration.Text.Join
import Mathlib.Data.List.Basic
import Mathlib.Tactic.Common

/-!
# Pieces of a text

* `splitAtEach_append` — a text grows in its last piece;
* `splitAtEach_append_cons` — a separator keeps the pieces on its two sides apart;
* `splitAtEach_joinWith` — joining and splitting.
-/

namespace ProviderMigration
namespace Text

theorem exists_splitAtEach (separator : Char) (cs : List Char) :
    ∃ before last, splitAtEach separator cs = before ++ [last] := by
  induction cs with
  | nil => exact ⟨[], [], rfl⟩
  | cons c cs ih =>
      rcases ih with ⟨before, last, hsplit⟩
      by_cases hc : c = separator
      · exact ⟨[] :: before, last, by simp [splitAtEach, hc, hsplit]⟩
      · cases before with
        | nil => exact ⟨[], c :: last, by simp [splitAtEach, hc, hsplit]⟩
        | cons piece before =>
            exact ⟨(c :: piece) :: before, last, by simp [splitAtEach, hc, hsplit]⟩

theorem splitAtEach_of_not_mem {separator : Char} {cs : List Char} (h : separator ∉ cs) :
    splitAtEach separator cs = [cs] := by
  induction cs with
  | nil => rfl
  | cons c cs ih =>
      rw [List.mem_cons, not_or] at h
      simp [splitAtEach, Ne.symm h.1, ih h.2]

theorem splitAtEach_append {separator : Char} {cs : List Char} {before : List (List Char)}
    {last tail : List Char} (hsplit : splitAtEach separator cs = before ++ [last])
    (htail : separator ∉ tail) :
    splitAtEach separator (cs ++ tail) = before ++ [last ++ tail] := by
  induction cs generalizing before last with
  | nil =>
      obtain ⟨rfl, rfl⟩ : before = [] ∧ last = [] := by
        cases before <;> simp_all [splitAtEach]
      simpa using splitAtEach_of_not_mem htail
  | cons c cs ih =>
      rcases exists_splitAtEach separator cs with ⟨pieces, piece, hpieces⟩
      have hrest := ih hpieces
      by_cases hc : c = separator
      · rw [splitAtEach, if_pos hc, hpieces, ← List.cons_append] at hsplit
        obtain ⟨rfl, hlast⟩ := List.append_inj' hsplit rfl
        obtain rfl : piece = last := by simpa using hlast
        rw [List.cons_append, splitAtEach, if_pos hc, hrest, List.cons_append]
      · rw [splitAtEach, if_neg hc, hpieces] at hsplit
        rw [List.cons_append, splitAtEach, if_neg hc, hrest]
        cases pieces with
        | nil =>
            obtain ⟨rfl, rfl⟩ : before = [] ∧ last = c :: piece := by
              cases before <;> simp_all
            simp
        | cons first pieces =>
            simp only [List.cons_append] at hsplit ⊢
            rw [← List.cons_append] at hsplit
            obtain ⟨rfl, hlast⟩ := List.append_inj' hsplit rfl
            obtain rfl : piece = last := by simpa using hlast
            simp

theorem splitAtEach_append_cons (separator : Char) (cs ds : List Char) :
    splitAtEach separator (cs ++ separator :: ds) =
      splitAtEach separator cs ++ splitAtEach separator ds := by
  induction cs with
  | nil => simp [splitAtEach]
  | cons c cs ih =>
      by_cases hc : c = separator
      · simp [splitAtEach, hc, ih]
      · rcases exists_splitAtEach separator cs with ⟨before, last, hsplit⟩
        rw [List.cons_append, splitAtEach, if_neg hc, ih, splitAtEach, if_neg hc, hsplit]
        cases before <;> simp

/-- Texts without the separator are the pieces of the text in which it joins them. -/
theorem splitAtEach_joinWith {separator : Char} {texts : List String} (hne : texts ≠ [])
    (hfree : ∀ s ∈ texts, separator ∉ s.toList) :
    splitAtEach separator (joinWith (String.singleton separator) texts).toList =
      texts.map String.toList := by
  induction texts with
  | nil => exact absurd rfl hne
  | cons s rest ih =>
      rw [List.forall_mem_cons] at hfree
      cases rest with
      | nil => simpa [joinWith] using splitAtEach_of_not_mem hfree.1
      | cons s' rest =>
          have hrest := ih (by simp) hfree.2
          have htext : (joinWith (String.singleton separator) (s :: s' :: rest)).toList =
              s.toList ++ separator ::
                (joinWith (String.singleton separator) (s' :: rest)).toList := by
            simp [joinWith]
          rw [htext, splitAtEach_append_cons, splitAtEach_of_not_mem hfree.1, hrest]
          rfl

end Text
end ProviderMigration
