import ProviderMigration.Proofs.Hcl.Respelling.Directive
import ProviderMigration.Proofs.Hcl.Token.Append

/-!
# Respelling line by line

No word has a line break, so a text in which a word is respelled has the lines it had before, each
of them respelled. A heredoc ends at the same line, unless a line is respelled as its marker
(`untilMarker?_apply`).
-/

namespace ProviderMigration
namespace Hcl

open Text (isWordChar startsWord dropEndWhile)
open Lexeme (isIdentChar untilMarker? takeLineBreak takeOne heredoc? heredocBody)
open Template (exists_trimmed)

namespace Respelling

variable {s : Respelling} {inWord : Bool} {c : Char} {cs ds text : List Char} {p : Char → Bool}

/-! ## Lines -/

/-- The rest of a text from the first character on that is not of class `p`. -/
theorem startsWord_dropWhile (hp : ∀ c, isWordChar c = true → p c = true) (cs : List Char) :
    startsWord (cs.dropWhile p) = false := by
  cases hrest : cs.dropWhile p with
  | nil => rfl
  | cons c rest =>
      have hc : p c = false := by
        have hhead := List.head?_dropWhile_not p cs
        rw [hrest] at hhead
        simpa using hhead
      by_contra hword
      rw [Bool.not_eq_false] at hword
      rw [hp c hword] at hc
      exact Bool.noConfusion hc

/-- A text cut where it first has a character that is not of class `p`, unless the cut goes through
a word. -/
theorem span_apply (hp : ∀ c ∈ s.new, p c = true) (hcut : startsWord (cs.dropWhile p) = false)
    (inWord : Bool) :
    (s.apply inWord cs).takeWhile p = s.apply inWord (cs.takeWhile p) ∧
      (s.apply inWord cs).dropWhile p = s.apply false (cs.dropWhile p) := by
  have hcs : s.apply inWord cs =
      s.apply inWord (cs.takeWhile p) ++ s.apply false (cs.dropWhile p) := by
    rw [← apply_of_not_startsWord hcut (endsWord inWord (cs.takeWhile p)),
      ← s.apply_append fun _ => hcut, List.takeWhile_append_dropWhile]
  have hall : ∀ c ∈ s.apply inWord (cs.takeWhile p), p c = true := by
    intro c hc
    rcases mem_apply hc with hc | hc
    · exact List.mem_takeWhile_imp hc
    · exact hp c hc
  have hrest : ∀ c ∈ (s.apply false (cs.dropWhile p)).head?, p c = false := by
    intro c hc
    rw [head?_apply] at hc
    have hhead := List.head?_dropWhile_not p cs
    rw [hc] at hhead
    simpa using hhead
  rw [hcs, List.takeWhile_append_of_pos hall, List.dropWhile_append_of_pos hall]
  cases htail : s.apply false (cs.dropWhile p) with
  | nil => simp
  | cons c tail =>
      rw [htail] at hrest
      simp [hrest c rfl]

theorem ne_lineFeed (c : Char) (h : isWordChar c = true) : (c != '\n') = true := by
  rw [bne_iff_ne]
  rintro rfl
  exact absurd h (by decide)

theorem line_apply (s : Respelling) (inWord : Bool) (cs : List Char) :
    (s.apply inWord cs).takeWhile (· != '\n') = s.apply inWord (cs.takeWhile (· != '\n')) ∧
      (s.apply inWord cs).dropWhile (· != '\n') = s.apply false (cs.dropWhile (· != '\n')) :=
  span_apply (fun c hc => ne_lineFeed c (s.isWordChar_of_mem_new hc))
    (startsWord_dropWhile ne_lineFeed cs) inWord

theorem firstLine_apply (cs : List Char) :
    firstLine (s.apply false cs) = s.apply false (firstLine cs) ∧
      afterLine (s.apply false cs) = s.apply false (afterLine cs) := by
  obtain ⟨htake, hdrop⟩ := s.line_apply false cs
  simp only [firstLine, afterLine, htake, hdrop]
  have hbreak : ∀ c ∈ (cs.dropWhile (· != '\n')).take 1, isWordChar c = false := by
    intro c hc
    have hstart := startsWord_dropWhile ne_lineFeed cs
    cases hrest : cs.dropWhile (· != '\n') with
    | nil => simp [hrest] at hc
    | cons d rest =>
        rw [hrest] at hstart hc
        obtain rfl : c = d := by simpa using hc
        exact hstart
  rw [apply_append_nonword hbreak]
  cases hrest : cs.dropWhile (· != '\n') with
  | nil => simp [apply_nil]
  | cons d rest =>
      rw [hrest] at hbreak
      rw [s.apply_cons_of_nonword _ _ (hbreak d (by simp))]
      exact ⟨rfl, rfl⟩

/-! ## Heredocs -/

theorem apply_nonword_append (h : ∀ c ∈ ds, isWordChar c = false) (cs : List Char) :
    s.apply false (ds ++ cs) = ds ++ s.apply false cs := by
  cases ds with
  | nil => rfl
  | cons d ds => rw [apply_append_of_nonword h (by simp)]

theorem apply_between {lead tail : List Char} (hlead : ∀ c ∈ lead, isWordChar c = false)
    (htail : ∀ c ∈ tail, isWordChar c = false) (text : List Char) :
    s.apply false (lead ++ text ++ tail) = lead ++ s.apply false text ++ tail := by
  rw [apply_append_nonword htail, apply_nonword_append hlead]

/-- The words of a marker line: neither is it respelled nor is another line respelled as it. -/
theorem trim_apply_eq_iff {delimiter line : List Char} (hold : ¬ s.old <:+: delimiter)
    (hnew : ¬ s.new <:+: delimiter) :
    Text.trim (s.apply false line) = delimiter ↔ Text.trim line = delimiter := by
  rw [trim_apply]
  constructor
  · intro h
    rcases s.apply_eq_or_infix false (Text.trim line) with hsame | hwithin
    · rw [← hsame, h]
    · exact absurd (h ▸ hwithin) hnew
  · rintro rfl
    exact apply_of_not_infix hold

theorem apply_markerLine {line : List Char} (h : ¬ s.old <:+: Text.trim line) :
    s.apply false line = line := by
  obtain ⟨lead, tail, hline, -, hlead, htail⟩ := exists_trimmed line
  have hlead' : ∀ c ∈ lead, isWordChar c = false := by
    rw [hlead]
    exact fun c hc => isWordChar_of_isBlank (List.mem_takeWhile_imp hc)
  rw [hline, apply_between hlead' fun c hc => isWordChar_of_isBlank (htail c hc),
    apply_of_not_infix h]

/-- A line before another one ends with its line break. -/
theorem endsWord_firstLine (h : afterLine cs ≠ []) : endsWord inWord (firstLine cs) = false := by
  have hstart := startsWord_dropWhile ne_lineFeed cs
  rw [firstLine]
  rw [afterLine] at h
  cases hrest : cs.dropWhile (· != '\n') with
  | nil =>
      rw [hrest] at h
      exact absurd rfl h
  | cons d rest =>
      rw [hrest] at hstart
      rw [List.take_succ_cons, List.take_zero, endsWord_concat]
      exact hstart

/-- The lines of a heredoc and its marker. -/
theorem untilMarker?_apply {delimiter : List Char} (hold : ¬ s.old <:+: delimiter)
    (hnew : ¬ s.new <:+: delimiter) (cs : List Char) :
    untilMarker? delimiter (splitLines (s.apply false cs)) =
      (untilMarker? delimiter (splitLines cs)).map fun (content, marker, after) =>
        (s.apply false content, marker, s.apply false after) := by
  induction h : cs.length using Nat.strongRecOn generalizing cs with
  | ind n ih =>
      subst h
      by_cases hnil : cs = []
      · rw [hnil, apply_nil]
        rfl
      have hnil' : s.apply false cs ≠ [] := fun h => hnil (apply_eq_nil h)
      obtain ⟨hfirst, hafter⟩ := firstLine_apply (s := s) cs
      rw [splitLines_of_ne_nil hnil, splitLines_of_ne_nil hnil', hfirst, hafter, untilMarker?,
        untilMarker?]
      by_cases hmarker : Text.trim (firstLine cs) = delimiter
      · -- Neither the marker line nor the line break after the marker is respelled.
        rw [if_pos hmarker, if_pos ((trim_apply_eq_iff hold hnew).2 hmarker),
          apply_markerLine (hmarker ▸ hold), Lexeme.splitLines_flatten, Lexeme.splitLines_flatten,
          Option.map_some]
        dsimp only
        obtain ⟨tail, hline, htail⟩ :=
          exists_dropEndWhile (fun c => c == '\n' || c == '\r') (firstLine cs)
        have htail' : ∀ c ∈ tail, isWordChar c = false := by
          intro c hc
          have hbreak := htail c hc
          rw [Bool.or_eq_true, beq_iff_eq, beq_iff_eq] at hbreak
          rcases hbreak with rfl | rfl <;> decide
        have hdrop : (firstLine cs).drop
            (dropEndWhile (fun c => c == '\n' || c == '\r') (firstLine cs)).length = tail := by
          have hdrop := congrArg (List.drop
            (dropEndWhile (fun c => c == '\n' || c == '\r') (firstLine cs)).length) hline
          rwa [List.drop_left] at hdrop
        rw [hdrop, apply_nonword_append htail', apply_nil]
      · rw [if_neg hmarker, if_neg fun h => hmarker ((trim_apply_eq_iff hold hnew).1 h),
          ih _ (length_afterLine_lt hnil) _ rfl]
        cases hfound : untilMarker? delimiter (splitLines (afterLine cs)) with
        | none => rfl
        | some found =>
            have hafter : afterLine cs ≠ [] := by
              intro hafter
              rw [hafter] at hfound
              cases hfound
            have hcut : endsWord false (firstLine cs) = true → startsWord found.1 = false := by
              rw [endsWord_firstLine hafter]
              exact fun h => absurd h Bool.false_ne_true
            simp only [Option.map_some]
            rw [s.apply_append hcut, endsWord_firstLine hafter]

end Respelling

end Hcl
end ProviderMigration
