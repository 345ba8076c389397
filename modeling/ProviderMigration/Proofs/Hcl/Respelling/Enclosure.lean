import ProviderMigration.Proofs.Hcl.Respelling.Text
import ProviderMigration.Proofs.Hcl.Template.Enclosure

/-!
# Respelling and enclosures

Neither quotes nor braces, nor what hides them, are letters of a word, so respelling a word does not
move the end of an enclosure: the inside is respelled, and so is what comes after it
(`closing?_apply`).
-/

namespace ProviderMigration
namespace Hcl

open Text (isWordChar startsWord)
open Lexeme (isIdentStart)
open Template (closing? prepend outermost closing?_quotes_other closing?_braces_cons closing?_hidden
  closing?_doubled closing?_sequence)

section
variable {inner : Template.Enclosure} {outer : List Template.Enclosure} {c : Char}
  {cs letters : List Char}

theorem map_snd_prepend (front : List Char) (found : Option (List Char × List Char)) :
    (prepend front found).map Prod.snd = found.map Prod.snd := by
  cases found <;> rfl

/-- Letters mean nothing in an enclosure. -/
theorem closing?_letters (h : ∀ c ∈ letters, isIdentStart c = true) :
    (closing? inner outer (letters ++ cs)).map Prod.snd =
      (closing? inner outer cs).map Prod.snd := by
  induction letters with
  | nil => rfl
  | cons c letters ih =>
      rw [List.forall_mem_cons] at h
      have hne : ∀ d, isIdentStart d = false → c ≠ d := by
        rintro d hd rfl
        rw [h.1] at hd
        exact Bool.noConfusion hd
      have hquote : ¬ (c == '"') = true := by simpa using hne '"' (by decide)
      rw [List.cons_append, ← ih h.2]
      cases inner with
      | quotes =>
          have hdollar : ¬ (c = '$' ∨ c = '%') :=
            not_or.2 ⟨hne '$' (by decide), hne '%' (by decide)⟩
          rw [closing?_quotes_other (hne '"' (by decide)) (hne '\n' (by decide))
            (hne '\\' (by decide) ·.1) (hdollar ·.1) (hdollar ·.1), map_snd_prepend]
      | braces =>
          rw [closing?_braces_cons, if_neg (by simpa using hne '\x7d' (by decide)),
            if_neg (by simpa using hne '\x7b' (by decide)), if_neg hquote, map_snd_prepend]

end

namespace Respelling

variable {s : Respelling} {inner : Template.Enclosure} {outer : List Template.Enclosure}
  {inWord : Bool} {c : Char} {cs ds text : List Char}

/-- After the end of an enclosure comes what came there before, respelled. -/
def KeepsEnds (s : Respelling) (cs : List Char) : Prop :=
  ∀ inner outer inWord, (closing? inner outer (s.apply inWord cs)).map Prod.snd =
    ((closing? inner outer cs).map Prod.snd).map (s.apply false)

/-- The word is passed over, and so is what takes its place. -/
theorem keepsEnds_word (hstart : startsWord text = false) (h : s.KeepsEnds text) :
    (closing? inner outer (s.apply false (s.old ++ text))).map Prod.snd =
      ((closing? inner outer (s.old ++ text)).map Prod.snd).map (s.apply false) := by
  rw [apply_occurrence s hstart, closing?_letters fun _ => s.isIdentStart_of_mem_new,
    closing?_letters fun _ => s.isIdentStart_of_mem_old]
  exact h inner outer true

/-- After a backslash, the first letter of the word is hidden and the others are passed over. -/
theorem keepsEnds_hidden {d : Char} (h : ∀ text, text.length ≤ cs.length → s.KeepsEnds text) :
    (closing? .quotes outer ('\\' :: s.apply false (d :: cs))).map Prod.snd =
      ((closing? .quotes outer cs).map Prod.snd).map (s.apply false) := by
  by_cases hword : s.OccursAt false (d :: cs)
  · obtain ⟨-, text, htext, hstart⟩ := hword
    obtain ⟨e, oldTail, newTail, hold, hnew⟩ := s.exists_tails
    rw [hold, List.cons_append] at htext
    obtain ⟨rfl, rfl⟩ := List.cons.inj htext
    rw [← List.cons_append, ← hold, apply_occurrence s hstart, hnew, List.cons_append,
      closing?_hidden, map_snd_prepend,
      closing?_letters fun c hc => s.isIdentStart_of_mem_new (by simp [hnew, hc]),
      closing?_letters fun c hc => s.isIdentStart_of_mem_old (by simp [hold, hc])]
    exact h text (by simp) .quotes outer true
  · rw [apply_cons hword, closing?_hidden, map_snd_prepend]
    exact h cs le_rfl .quotes outer _

theorem keepsEnds_quotes (hword : ¬ s.OccursAt inWord (c :: cs))
    (h : ∀ text, text.length ≤ cs.length → s.KeepsEnds text) :
    (closing? .quotes outer (s.apply inWord (c :: cs))).map Prod.snd =
      ((closing? .quotes outer (c :: cs)).map Prod.snd).map (s.apply false) := by
  by_cases hquote : c = '"'
  · subst hquote
    rw [s.apply_cons_of_nonword _ _ (by decide)]
    cases outer with
    | nil => rfl
    | cons around outer =>
        change (prepend _ _).map Prod.snd = ((prepend _ _).map Prod.snd).map _
        rw [map_snd_prepend, map_snd_prepend]
        exact h cs le_rfl around outer false
  by_cases hline : c = '\n'
  · subst hline
    rw [s.apply_cons_of_nonword _ _ (by decide)]
    cases outer <;> rfl
  by_cases hbackslash : c = '\\' ∧ ∃ d ds, cs = d :: ds
  · obtain ⟨rfl, d, ds, rfl⟩ := hbackslash
    rw [s.apply_cons_of_nonword _ _ (by decide), closing?_hidden, map_snd_prepend]
    exact keepsEnds_hidden fun text htext => h text (Nat.le_succ_of_le htext)
  by_cases hdoubled : (c = '$' ∨ c = '%') ∧ ∃ ds, cs = c :: '\x7b' :: ds
  · obtain ⟨hc, ds, rfl⟩ := hdoubled
    have hnonword : isWordChar c = false := by rcases hc with rfl | rfl <;> decide
    rw [s.apply_cons_of_nonword _ _ hnonword, s.apply_cons_of_nonword _ _ hnonword,
      s.apply_cons_of_nonword _ _ (by decide), closing?_doubled hc, closing?_doubled hc,
      map_snd_prepend, map_snd_prepend]
    exact h ds (by simp; omega) .quotes outer false
  by_cases hsequence : (c = '$' ∨ c = '%') ∧ ∃ ds, cs = '\x7b' :: ds
  · obtain ⟨hc, ds, rfl⟩ := hsequence
    have hnonword : isWordChar c = false := by rcases hc with rfl | rfl <;> decide
    rw [s.apply_cons_of_nonword _ _ hnonword, s.apply_cons_of_nonword _ _ (by decide),
      closing?_sequence hc, closing?_sequence hc, map_snd_prepend, map_snd_prepend]
    exact h ds (by simp) .braces (.quotes :: outer) false
  -- Nothing begins here, neither before the respelling nor after it.
  rw [apply_cons hword, closing?_quotes_other hquote hline, map_snd_prepend,
    closing?_quotes_other hquote hline hbackslash hdoubled hsequence, map_snd_prepend]
  · exact h cs le_rfl .quotes outer _
  · rintro ⟨rfl, d, ds, hds⟩
    have hhead := congrArg List.head? hds
    rw [head?_apply, List.head?_cons, List.head?_eq_some_iff] at hhead
    obtain ⟨rest, hrest⟩ := hhead
    exact hbackslash ⟨rfl, d, rest, hrest⟩
  · rintro ⟨hc, ds, hds⟩
    have hnonword : isWordChar c = false := by rcases hc with rfl | rfl <;> decide
    obtain ⟨rest, hrest, hbrace⟩ := apply_eq_cons hds hnonword
    obtain ⟨tail, htail, -⟩ := apply_eq_cons hbrace.symm (by decide)
    exact hdoubled ⟨hc, tail, by rw [hrest, htail]⟩
  · rintro ⟨hc, ds, hds⟩
    obtain ⟨rest, hrest, -⟩ := apply_eq_cons hds (by decide)
    exact hsequence ⟨hc, rest, hrest⟩

theorem keepsEnds_braces (hword : ¬ s.OccursAt inWord (c :: cs)) (h : s.KeepsEnds cs) :
    (closing? .braces outer (s.apply inWord (c :: cs))).map Prod.snd =
      ((closing? .braces outer (c :: cs)).map Prod.snd).map (s.apply false) := by
  rw [apply_cons hword, closing?_braces_cons, closing?_braces_cons]
  by_cases hclose : c = '\x7d'
  · subst hclose
    cases outer with
    | nil => rfl
    | cons around outer =>
        change (prepend _ _).map Prod.snd = ((prepend _ _).map Prod.snd).map _
        rw [map_snd_prepend, map_snd_prepend]
        exact h around outer _
  have hclose' : ¬ (c == '\x7d') = true := by simpa using hclose
  rw [if_neg hclose', if_neg hclose']
  split
  · rw [map_snd_prepend, map_snd_prepend]
    exact h _ _ _
  split
  · rw [map_snd_prepend, map_snd_prepend]
    exact h _ _ _
  · rw [map_snd_prepend, map_snd_prepend]
    exact h _ _ _

theorem keepsEnds (s : Respelling) (cs : List Char) : s.KeepsEnds cs := by
  induction h : cs.length using Nat.strongRecOn generalizing cs with
  | ind n ih =>
      subst h
      intro inner outer inWord
      by_cases hword : s.OccursAt inWord cs
      · obtain ⟨rfl, text, rfl, hstart⟩ := hword
        exact keepsEnds_word hstart (ih _ (s.length_lt_old_append text) text rfl)
      · cases cs with
        | nil =>
            rw [apply_nil]
            cases inner <;> rfl
        | cons c cs =>
            have hshorter : ∀ text, text.length ≤ cs.length → s.KeepsEnds text :=
              fun text htext => ih _ (Nat.lt_succ_of_le htext) text rfl
            cases inner with
            | quotes => exact keepsEnds_quotes hword hshorter
            | braces => exact keepsEnds_braces hword (hshorter cs le_rfl)

/-- The inside of an enclosure is respelled, and so is what comes after it. -/
theorem closing?_apply (s : Respelling) (inner : Template.Enclosure)
    (outer : List Template.Enclosure) (inWord : Bool) (cs : List Char) :
    closing? inner outer (s.apply inWord cs) = (closing? inner outer cs).map fun (inside, after) =>
      (s.apply inWord inside, s.apply false after) := by
  have hends := s.keepsEnds cs inner outer inWord
  cases hclosing : closing? inner outer cs with
  | none =>
      rw [hclosing] at hends
      simpa using hends
  | some found =>
      obtain ⟨inside, after⟩ := found
      rw [hclosing] at hends
      obtain ⟨⟨inside', after'⟩, hfound, rfl⟩ := Option.map_eq_some_iff.1 hends
      have htext := Template.closing?_eq_append hfound
      rw [Template.closing?_eq_append hclosing] at htext
      have hcloser : isWordChar (outermost inner outer).closer = false := by
        cases outermost inner outer <;> decide
      have hcut : startsWord ((outermost inner outer).closer :: after) = false := hcloser
      rw [s.apply_append fun _ => hcut, s.apply_cons_of_nonword _ _ hcloser] at htext
      have hinside : s.apply inWord inside = inside' := List.append_cancel_right htext
      rw [hfound, ← hinside]
      rfl

end Respelling

end Hcl
end ProviderMigration
