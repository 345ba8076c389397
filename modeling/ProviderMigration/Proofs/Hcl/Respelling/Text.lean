import ProviderMigration.Hcl.Template.Segment
import ProviderMigration.Hcl.Token.Lexer
import ProviderMigration.Text.Word
import Mathlib.Data.List.Infix

/-!
# Respelling a word in a text

A `Respelling` replaces a word by another wherever it stands alone. It goes through a text piece by
piece, as long as no cut goes through the middle of a word (`apply_append`), and it leaves texts
alone in which the word does not stand (`apply_of_not_standsIn`).

* `StandsIn` — a word that stands alone somewhere in a text;
* `Respelling` — two words that begin alike and that no escape sequence can begin;
* `Respelling.apply` — the respelled text;
* `Respelling.induct` — induction over a text along the occurrences of the word.
-/

namespace ProviderMigration
namespace Hcl

open Text (isWordChar startsWord)
open Lexeme (isIdentStart)

/-- A word to be replaced by another. Both are made of letters and underscores, of the latter at
least one, and begin alike. The word begins no escape, no exponent and no keyword of a directive. -/
structure Respelling where
  old : List Char
  new : List Char
  letters : ∀ c ∈ old ++ new, isIdentStart c = true ∧ isWordChar c = true
  underscore_old : '_' ∈ old
  underscore_new : '_' ∈ new
  head_eq : new.head? = old.head?
  head_ne : ∀ c ∈ ['n', 'r', 't', 'u', 'U', 'e', 'E', 'i', 'f'], old.head? ≠ some c
  second : ∃ c d rest, old = c :: d :: rest ∧ Template.hexDigit? d = none

/-! ## Word characters -/

/-- Whether a text ends inside a word, when `inWord` says so of the text before it. -/
def endsWord (inWord : Bool) : List Char → Bool
  | [] => inWord
  | c :: cs => endsWord (isWordChar c) cs

section
variable {inWord : Bool} {c : Char} {cs ds : List Char}

theorem isWordChar_of_isAlphanum (h : c.isAlphanum = true) : isWordChar c = true := by
  have hpoint : ∀ n < 128, (Char.ofNat n).isAlphanum = true →
      Text.inRuns false Text.wordRuns n = true := by
    decide +kernel
  have hlt : c.toNat < 128 := by
    have hranges : c.isAlphanum = (decide (c.val ≥ 'A'.val ∧ c.val ≤ 'Z'.val) ||
        c.val ≥ 'a'.val && c.val ≤ 'z'.val || c.val ≥ '0'.val && c.val ≤ '9'.val) := rfl
    simp only [hranges, Bool.or_eq_true, Bool.and_eq_true, decide_eq_true_eq, ge_iff_le,
      UInt32.le_iff_toNat_le] at h
    have hupper : 'Z'.val.toNat < 128 := by decide
    have hlower : 'z'.val.toNat < 128 := by decide
    have hdigit : '9'.val.toNat < 128 := by decide
    rw [Char.toNat]
    omega
  exact hpoint c.toNat hlt (by rwa [Char.ofNat_toNat])

/-- No word has a blank. -/
theorem isWordChar_of_isBlank (h : Text.isBlank c = true) : isWordChar c = false := by
  have hpoint : ∀ n ∈ [9, 10, 11, 12, 13, 0x20, 0x85, 0xA0, 0x1680, 0x2000, 0x2001, 0x2002, 0x2003,
      0x2004, 0x2005, 0x2006, 0x2007, 0x2008, 0x2009, 0x200A, 0x2028, 0x2029, 0x202F, 0x205F,
      0x3000], Text.inRuns false Text.wordRuns n = false := by
    decide +kernel
  refine hpoint c.toNat ?_
  simp only [Text.isBlank, Bool.or_eq_true, Bool.and_eq_true, decide_eq_true_eq, beq_iff_eq] at h
  simp only [List.mem_cons, List.not_mem_nil, or_false]
  omega

theorem endsWord_append : endsWord inWord (cs ++ ds) = endsWord (endsWord inWord cs) ds := by
  induction cs generalizing inWord with
  | nil => rfl
  | cons c cs ih => exact ih

theorem endsWord_concat : endsWord inWord (cs ++ [c]) = isWordChar c := by
  rw [endsWord_append]
  rfl

theorem endsWord_of_forall (h : ∀ c ∈ cs, isWordChar c = true) (hne : cs ≠ []) :
    endsWord inWord cs = true := by
  induction cs generalizing inWord with
  | nil => exact absurd rfl hne
  | cons c cs ih =>
      rw [List.forall_mem_cons] at h
      rw [endsWord]
      cases cs with
      | nil => exact h.1
      | cons d ds => exact ih h.2 (by simp)

end

/-! ## Words in a text -/

/-- The word stands alone somewhere in the text; `inWord` says whether a word character stands
before the text. -/
def StandsIn (word : List Char) (inWord : Bool) (cs : List Char) : Prop :=
  ∃ front back, cs = front ++ (word ++ back) ∧ endsWord inWord front = false ∧
    startsWord back = false

namespace StandsIn

variable {word cs : List Char} {inWord : Bool}

theorem isInfix (h : StandsIn word inWord cs) : word <:+: cs := by
  obtain ⟨front, back, rfl, -, -⟩ := h
  rw [← List.append_assoc]
  exact List.infix_append front word back

theorem prepend {front : List Char} (h : StandsIn word (endsWord inWord front) cs) :
    StandsIn word inWord (front ++ cs) := by
  obtain ⟨before, back, rfl, hbefore, hback⟩ := h
  rw [← endsWord_append] at hbefore
  exact ⟨front ++ before, back, (List.append_assoc ..).symm, hbefore, hback⟩

theorem append (h : StandsIn word inWord cs) {back : List Char} (hback : startsWord back = false) :
    StandsIn word inWord (cs ++ back) := by
  obtain ⟨front, after, rfl, hfront, hafter⟩ := h
  refine ⟨front, after ++ back, by simp, hfront, ?_⟩
  cases after with
  | nil => exact hback
  | cons c after => exact hafter

/-- A word that stands in a text also stands there where no word character comes before. -/
theorem free (h : StandsIn word inWord cs) : StandsIn word false cs := by
  obtain ⟨front, back, rfl, hfront, hback⟩ := h
  refine ⟨front, back, rfl, ?_, hback⟩
  cases front with
  | nil => rfl
  | cons c front => exact hfront

theorem iff_exists_le : StandsIn word inWord cs ↔ ∃ n ≤ cs.length,
    endsWord inWord (cs.take n) = false ∧ word <+: cs.drop n ∧
      startsWord (cs.drop (n + word.length)) = false := by
  constructor
  · rintro ⟨front, back, rfl, hfront, hback⟩
    refine ⟨front.length, by simp, ?_, ?_, ?_⟩
    · rwa [List.take_left]
    · rw [List.drop_left]
      exact List.prefix_append word back
    · rwa [← List.append_assoc, ← List.length_append, List.drop_left]
  · rintro ⟨n, -, hfront, ⟨back, hword⟩, hback⟩
    refine ⟨cs.take n, back, ?_, hfront, ?_⟩
    · rw [hword, List.take_append_drop]
    · rwa [← List.drop_drop, ← hword, List.drop_left] at hback

instance : Decidable (StandsIn word inWord cs) :=
  decidable_of_iff' _ iff_exists_le

end StandsIn

namespace Respelling

variable {s : Respelling} {inWord : Bool} {c : Char} {cs ds text rest : List Char}

/-- The text with the word respelled; `inWord` says whether a word character stands before it. -/
def apply (s : Respelling) (inWord : Bool) (cs : List Char) : List Char :=
  Text.replaceWord s.old s.new inWord cs

/-! ## The words -/

theorem isIdentStart_of_mem_old (s : Respelling) (h : c ∈ s.old) : isIdentStart c = true :=
  (s.letters c (by simp [h])).1

theorem isIdentStart_of_mem_new (s : Respelling) (h : c ∈ s.new) : isIdentStart c = true :=
  (s.letters c (by simp [h])).1

theorem isWordChar_of_mem_old (s : Respelling) (h : c ∈ s.old) : isWordChar c = true :=
  (s.letters c (by simp [h])).2

theorem isWordChar_of_mem_new (s : Respelling) (h : c ∈ s.new) : isWordChar c = true :=
  (s.letters c (by simp [h])).2

theorem old_ne_nil (s : Respelling) : s.old ≠ [] :=
  List.ne_nil_of_mem s.underscore_old

theorem new_ne_nil (s : Respelling) : s.new ≠ [] :=
  List.ne_nil_of_mem s.underscore_new

/-- Both words begin with the same letter. -/
theorem exists_tails (s : Respelling) :
    ∃ c oldTail newTail, s.old = c :: oldTail ∧ s.new = c :: newTail := by
  obtain ⟨c, oldTail, hold⟩ := List.exists_cons_of_ne_nil s.old_ne_nil
  obtain ⟨newTail, hnew⟩ := List.head?_eq_some_iff.1 (s.head_eq.trans (congrArg List.head? hold))
  exact ⟨c, oldTail, newTail, hold, hnew⟩

theorem length_lt_old_append (s : Respelling) (text : List Char) :
    text.length < (s.old ++ text).length := by
  rw [List.length_append]
  exact Nat.lt_add_of_pos_left (List.length_pos_iff.2 s.old_ne_nil)

theorem endsWord_old (s : Respelling) (inWord : Bool) : endsWord inWord s.old = true :=
  endsWord_of_forall (fun _ => s.isWordChar_of_mem_old) s.old_ne_nil

/-! ## Occurrences -/

/-- The word stands at the start of the text, alone. -/
def OccursAt (s : Respelling) (inWord : Bool) (cs : List Char) : Prop :=
  inWord = false ∧ ∃ text, cs = s.old ++ text ∧ startsWord text = false

theorem apply_nil (s : Respelling) (inWord : Bool) : s.apply inWord [] = [] := by
  rw [apply, Text.replaceWord]

theorem apply_occurrence (s : Respelling) (h : startsWord text = false) :
    s.apply false (s.old ++ text) = s.new ++ s.apply true text := by
  obtain ⟨c, cs, hold⟩ := List.exists_cons_of_ne_nil s.old_ne_nil
  have hdrop : (cs ++ text).drop (s.old.length - 1) = text := by
    simp [hold]
  have hbegins : s.old.isPrefixOf (c :: (cs ++ text)) = true := by
    rw [List.isPrefixOf_iff_prefix, hold]
    exact List.prefix_append (c :: cs) text
  have hstart : s.old ++ text = c :: (cs ++ text) := by rw [hold, List.cons_append]
  rw [apply, hstart, Text.replaceWord, hdrop, hbegins, h]
  rfl

theorem apply_cons (h : ¬ s.OccursAt inWord (c :: cs)) :
    s.apply inWord (c :: cs) = c :: s.apply (isWordChar c) cs := by
  rw [apply, Text.replaceWord, if_neg]
  · rfl
  · rw [Bool.and_eq_true, Bool.and_eq_true, Bool.not_eq_true', Bool.not_eq_true',
      List.isPrefixOf_iff_prefix]
    rintro ⟨⟨hword, tail, htail⟩, hstart⟩
    refine h ⟨hword, tail, htail.symm, ?_⟩
    obtain ⟨d, ds, hold⟩ := List.exists_cons_of_ne_nil s.old_ne_nil
    have hcs : cs = ds ++ tail := by
      rw [hold] at htail
      exact (List.cons.inj htail).2.symm
    rwa [hcs, hold, List.length_cons, Nat.add_sub_cancel, List.drop_left] at hstart

/-- Induction over a text: an occurrence of the word, or a character. -/
theorem induct (s : Respelling) {P : Bool → List Char → Prop} (nil : ∀ inWord, P inWord [])
    (occurrence : ∀ text, startsWord text = false → P true text → P false (s.old ++ text))
    (char : ∀ inWord c cs, ¬ s.OccursAt inWord (c :: cs) → P (isWordChar c) cs →
      P inWord (c :: cs)) (inWord : Bool) (cs : List Char) : P inWord cs := by
  induction h : cs.length using Nat.strongRecOn generalizing inWord cs with
  | ind n ih =>
      subst h
      cases cs with
      | nil => exact nil inWord
      | cons c cs =>
          by_cases hoccurs : s.OccursAt inWord (c :: cs)
          · obtain ⟨rfl, text, htext, hstart⟩ := hoccurs
            have hlength : text.length < (c :: cs).length := htext ▸ s.length_lt_old_append text
            rw [htext]
            exact occurrence text hstart (ih _ hlength true text rfl)
          · exact char inWord c cs hoccurs (ih _ (Nat.lt_succ_self _) _ cs rfl)

theorem not_occursAt_of_head_ne (h : s.old.head? ≠ some c) : ¬ s.OccursAt inWord (c :: cs) := by
  rintro ⟨-, text, htext, -⟩
  obtain ⟨d, ds, hold⟩ := List.exists_cons_of_ne_nil s.old_ne_nil
  rw [hold, List.cons_append] at htext
  rw [hold, (List.cons.inj htext).1] at h
  exact h rfl

theorem head_ne_of_not_mem (h : c ∉ s.old) : s.old.head? ≠ some c :=
  fun hc => h (List.mem_of_head? hc)

/-- A character that no word has. -/
theorem apply_cons_of_nonword (s : Respelling) (inWord : Bool) (cs : List Char)
    (h : isWordChar c = false) : s.apply inWord (c :: cs) = c :: s.apply false cs := by
  have hc : c ∉ s.old := fun hc => by simp [s.isWordChar_of_mem_old hc] at h
  rw [apply_cons (not_occursAt_of_head_ne (head_ne_of_not_mem hc)), h]

theorem apply_true_cons (s : Respelling) (c : Char) (cs : List Char) :
    s.apply true (c :: cs) = c :: s.apply (isWordChar c) cs :=
  apply_cons fun h => Bool.noConfusion h.1

/-! ## What stays -/

@[simp] theorem head?_apply (s : Respelling) (inWord : Bool) (cs : List Char) :
    (s.apply inWord cs).head? = cs.head? := by
  cases inWord, cs using s.induct with
  | nil inWord => rw [apply_nil]
  | occurrence text hstart =>
      rw [apply_occurrence s hstart, List.head?_append_of_ne_nil _ s.new_ne_nil,
        List.head?_append_of_ne_nil _ s.old_ne_nil, s.head_eq]
  | char inWord c cs h => rw [apply_cons h, List.head?_cons, List.head?_cons]

theorem mem_apply (h : c ∈ s.apply inWord cs) : c ∈ cs ∨ c ∈ s.new := by
  induction inWord, cs using s.induct with
  | nil inWord =>
      rw [apply_nil] at h
      exact .inl h
  | occurrence text hstart ih =>
      rw [apply_occurrence s hstart, List.mem_append] at h
      rcases h with h | h
      · exact .inr h
      · exact (ih h).imp_left (List.mem_append_right s.old)
  | char inWord d cs hd ih =>
      rw [apply_cons hd, List.mem_cons] at h
      rcases h with rfl | h
      · exact .inl List.mem_cons_self
      · exact (ih h).imp_left (List.mem_cons_of_mem d)

/-- A text in which the word does not stand is left alone. -/
theorem apply_of_not_standsIn (h : ¬ StandsIn s.old inWord cs) : s.apply inWord cs = cs := by
  induction inWord, cs using s.induct with
  | nil inWord => exact apply_nil s inWord
  | occurrence text hstart => exact absurd ⟨[], text, rfl, rfl, hstart⟩ h
  | char inWord c cs hc ih =>
      have hrest : ¬ StandsIn s.old (isWordChar c) cs := by
        intro hstands
        have hwhole : StandsIn s.old inWord ([c] ++ cs) := StandsIn.prepend hstands
        exact h hwhole
      rw [apply_cons hc, ih hrest]

theorem apply_of_not_infix (h : ¬ s.old <:+: cs) : s.apply inWord cs = cs :=
  apply_of_not_standsIn fun hstands => h hstands.isInfix

/-- A text that is changed contains the new word. -/
theorem apply_eq_or_infix (s : Respelling) (inWord : Bool) (cs : List Char) :
    s.apply inWord cs = cs ∨ s.new <:+: s.apply inWord cs := by
  induction inWord, cs using s.induct with
  | nil inWord => exact .inl (apply_nil s inWord)
  | occurrence text hstart =>
      rw [apply_occurrence s hstart]
      exact .inr (List.prefix_append s.new _).isInfix
  | char inWord c cs hc ih =>
      rw [apply_cons hc]
      rcases ih with heq | hwithin
      · exact .inl (by rw [heq])
      · exact .inr (hwithin.trans (List.suffix_cons c _).isInfix)

theorem apply_eq_nil (h : s.apply inWord cs = []) : cs = [] := by
  have hhead := congrArg List.head? h
  rwa [head?_apply, List.head?_nil, List.head?_eq_none_iff] at hhead

/-- A character that no word has was there before. -/
theorem apply_eq_cons (h : s.apply inWord cs = c :: ds) (hc : isWordChar c = false) :
    ∃ rest, cs = c :: rest ∧ ds = s.apply false rest := by
  have hhead := congrArg List.head? h
  rw [head?_apply, List.head?_cons, List.head?_eq_some_iff] at hhead
  obtain ⟨rest, rfl⟩ := hhead
  rw [apply_cons_of_nonword s inWord rest hc] at h
  exact ⟨rest, rfl, (List.cons.inj h).2.symm⟩

/-! ## Pieces -/

/-- A cut between two pieces, if it does not go through a word. -/
theorem apply_append (s : Respelling)
    (h : endsWord inWord cs = true → startsWord ds = false) :
    s.apply inWord (cs ++ ds) = s.apply inWord cs ++ s.apply (endsWord inWord cs) ds := by
  induction inWord, cs using s.induct with
  | nil inWord => rw [apply_nil, List.nil_append, List.nil_append, endsWord]
  | occurrence text hstart ih =>
      rw [endsWord_append, s.endsWord_old] at h ⊢
      have hafter : startsWord (text ++ ds) = false := by
        cases text with
        | nil => exact h rfl
        | cons c text => exact hstart
      rw [List.append_assoc, apply_occurrence s hafter, apply_occurrence s hstart, ih h,
        List.append_assoc]
  | char inWord c cs hc ih =>
      have hafter : ¬ s.OccursAt inWord (c :: (cs ++ ds)) := by
        rintro ⟨hword, text, htext, hstart⟩
        rw [← List.cons_append] at htext
        -- The word stands before the cut, or it goes across.
        rcases List.append_eq_append_iff.1 htext with ⟨front, hold, hds⟩ | ⟨front, hcs, htext'⟩
        · cases front with
          | nil =>
              rw [List.append_nil] at hold
              exact hc ⟨hword, [], by rw [hold, List.append_nil], rfl⟩
          | cons d front =>
              have hends : endsWord inWord (c :: cs) = true :=
                endsWord_of_forall (fun e he => s.isWordChar_of_mem_old (by
                  rw [hold]
                  exact List.mem_append_left _ he)) (by simp)
              have hd : isWordChar d = true := s.isWordChar_of_mem_old (by simp [hold])
              have hstarts : startsWord ds = true := by
                rw [hds, List.cons_append]
                exact hd
              rw [h hends] at hstarts
              exact Bool.false_ne_true hstarts
        · refine hc ⟨hword, front, hcs, ?_⟩
          cases front with
          | nil => rfl
          | cons d front =>
              rw [htext'] at hstart
              exact hstart
      rw [List.cons_append, apply_cons hafter, apply_cons hc, ih h, List.cons_append, endsWord]

/-- A piece that has no word character is left alone. -/
theorem apply_append_of_nonword (h : ∀ c ∈ cs, isWordChar c = false) (hne : cs ≠ []) :
    s.apply inWord (cs ++ ds) = cs ++ s.apply false ds := by
  induction cs generalizing inWord with
  | nil => exact absurd rfl hne
  | cons c cs ih =>
      rw [List.forall_mem_cons] at h
      rw [List.cons_append, apply_cons_of_nonword s inWord _ h.1]
      cases cs with
      | nil => rfl
      | cons d cs =>
          rw [ih h.2 (by simp)]
          rfl

end Respelling

end Hcl
end ProviderMigration
