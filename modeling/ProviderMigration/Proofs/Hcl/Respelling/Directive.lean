import ProviderMigration.Proofs.Hcl.Template.Segment
import ProviderMigration.Proofs.Hcl.Respelling.Text
import Mathlib.Data.List.TakeWhile
import Mathlib.Tactic.ByContra

/-!
# Respelling inside a sequence

No word has a blank or a tilde, and none begins like `if`, `for` or `in`. So the strip markers of a
sequence and the parts of a directive stay where they are when a word is respelled.

* `stripMarkers_apply` — the inside of a sequence between its strip markers;
* `controlling?_apply` — the expression that controls a directive.
-/

namespace ProviderMigration
namespace Hcl

open Text (isWordChar startsWord dropEndWhile)
open Template (takeEndTilde stripMarkers throughIn? afterKeyword? controlledText? controlling?
  stripMarkers_of_head? blankRest_controlledText? controlling?_append exists_trimmed)

namespace Respelling

variable {s : Respelling} {inWord : Bool} {c : Char} {cs ds text : List Char} {p : Char → Bool}

/-! ## Trimming -/

/-- Before a text that does not begin with a word character nothing matters. -/
theorem apply_of_not_startsWord (h : startsWord cs = false) (inWord : Bool) :
    s.apply inWord cs = s.apply false cs := by
  cases cs with
  | nil => rw [apply_nil, apply_nil]
  | cons c cs => rw [s.apply_cons_of_nonword _ _ h, s.apply_cons_of_nonword _ _ h]

theorem dropWhile_apply (hp : ∀ c, p c = true → isWordChar c = false) (cs : List Char) :
    (s.apply false cs).dropWhile p = s.apply false (cs.dropWhile p) := by
  induction cs with
  | nil => rw [apply_nil, List.dropWhile_nil, apply_nil]
  | cons c cs ih =>
      by_cases hc : p c = true
      · rw [s.apply_cons_of_nonword _ _ (hp c hc), List.dropWhile_cons_of_pos hc,
          List.dropWhile_cons_of_pos hc, ih]
      · -- The first character is the same, and it is not dropped.
        obtain ⟨ds, hds⟩ := List.head?_eq_some_iff.1 (s.head?_apply false (c :: cs))
        rw [List.dropWhile_cons_of_neg hc, hds, List.dropWhile_cons_of_neg hc]

theorem takeWhile_apply (hp : ∀ c, p c = true → isWordChar c = false) (inWord : Bool)
    (cs : List Char) : (s.apply inWord cs).takeWhile p = cs.takeWhile p := by
  induction cs generalizing inWord with
  | nil => rw [apply_nil]
  | cons c cs ih =>
      by_cases hc : p c = true
      · rw [s.apply_cons_of_nonword _ _ (hp c hc), List.takeWhile_cons_of_pos hc,
          List.takeWhile_cons_of_pos hc, ih]
      · obtain ⟨ds, hds⟩ := List.head?_eq_some_iff.1 (s.head?_apply inWord (c :: cs))
        rw [List.takeWhile_cons_of_neg hc, hds, List.takeWhile_cons_of_neg hc]

/-- A last character that no word has was the last one before. -/
theorem getLast?_of_apply (h : (s.apply inWord cs).getLast? = some c)
    (hc : isWordChar c = false) : cs.getLast? = some c := by
  induction inWord, cs using s.induct with
  | nil inWord => rwa [apply_nil] at h
  | occurrence text hstart ih =>
      rw [apply_occurrence s hstart] at h
      cases text with
      | nil =>
          rw [apply_nil, List.append_nil] at h
          have hword := s.isWordChar_of_mem_new (List.mem_of_getLast? h)
          simp [hc] at hword
      | cons d text =>
          have hne : s.apply true (d :: text) ≠ [] := fun hnil => by simpa using apply_eq_nil hnil
          rw [List.getLast?_append_of_ne_nil _ hne] at h
          rw [List.getLast?_append_of_ne_nil _ (by simp)]
          exact ih h
  | char inWord d cs hd ih =>
      rw [apply_cons hd] at h
      cases cs with
      | nil => rwa [apply_nil] at h
      | cons e cs =>
          have hne : s.apply (isWordChar d) (e :: cs) ≠ [] :=
            fun hnil => by simpa using apply_eq_nil hnil
          rw [List.getLast?_cons_of_ne_nil hne] at h
          rw [List.getLast?_cons_of_ne_nil (by simp)]
          exact ih h

/-- The text of characters that no word has, at the end. -/
theorem apply_append_nonword (h : ∀ c ∈ ds, isWordChar c = false) (inWord : Bool)
    (cs : List Char) : s.apply inWord (cs ++ ds) = s.apply inWord cs ++ ds := by
  cases ds with
  | nil => rw [List.append_nil, List.append_nil]
  | cons d ds =>
      have hcut : startsWord (d :: ds) = false := h d (by simp)
      have hrest : s.apply (endsWord inWord cs) (d :: ds ++ []) = d :: ds ++ s.apply false [] :=
        apply_append_of_nonword h (by simp)
      rw [apply_nil, List.append_nil] at hrest
      rw [s.apply_append fun _ => hcut, hrest]

theorem dropEndWhile_apply (hp : ∀ c, p c = true → isWordChar c = false) (inWord : Bool)
    (cs : List Char) :
    dropEndWhile p (s.apply inWord cs) = s.apply inWord (dropEndWhile p cs) := by
  have hkept {text : List Char} {c : Char} (hc : p c = false) :
      dropEndWhile p (text ++ [c]) = text ++ [c] := by
    simp [dropEndWhile, hc]
  induction cs using List.reverseRecOn with
  | nil => rw [apply_nil, dropEndWhile, List.reverse_nil, List.dropWhile_nil, List.reverse_nil,
      apply_nil]
  | append_singleton cs c ih =>
      have hdropped {text : List Char} (hc : p c = true) :
          dropEndWhile p (text ++ [c]) = dropEndWhile p text := by
        simp [dropEndWhile, hc]
      by_cases hc : p c = true
      · rw [apply_append_nonword (List.forall_mem_singleton.2 (hp c hc)), hdropped hc, hdropped hc,
          ih]
      · -- The last character stays one that is not dropped.
        rw [Bool.not_eq_true] at hc
        rw [hkept hc]
        have hne : s.apply inWord (cs ++ [c]) ≠ [] :=
          fun hnil => List.concat_ne_nil c cs (apply_eq_nil hnil)
        obtain ⟨text, d, htext⟩ := (List.eq_nil_or_concat _).resolve_left hne
        have hd : p d = false := by
          by_contra hd
          rw [Bool.not_eq_false] at hd
          have hafter : (s.apply inWord (cs ++ [c])).getLast? = some d := by
            rw [htext, List.concat_eq_append, List.getLast?_concat]
          have hlast := getLast?_of_apply hafter (hp d hd)
          rw [List.getLast?_concat, Option.some.injEq] at hlast
          rw [hlast, hd] at hc
          exact Bool.noConfusion hc
        rw [htext, List.concat_eq_append, hkept hd]

theorem trimStart_apply (cs : List Char) :
    Text.trimStart (s.apply false cs) = s.apply false (Text.trimStart cs) :=
  dropWhile_apply (fun _ => isWordChar_of_isBlank) cs

theorem trimEnd_apply (inWord : Bool) (cs : List Char) :
    Text.trimEnd (s.apply inWord cs) = s.apply inWord (Text.trimEnd cs) :=
  dropEndWhile_apply (fun _ => isWordChar_of_isBlank) inWord cs

theorem trim_apply (cs : List Char) :
    Text.trim (s.apply false cs) = s.apply false (Text.trim cs) := by
  rw [Text.trim, trimStart_apply, trimEnd_apply, Text.trim]

/-! ## Strip markers -/

theorem takeEndTilde_apply (inWord : Bool) (cs : List Char) :
    takeEndTilde (s.apply inWord cs) =
      (s.apply inWord (takeEndTilde cs).1, (takeEndTilde cs).2) := by
  rw [takeEndTilde, takeEndTilde]
  by_cases hlast : cs.getLast? = some '~'
  · obtain ⟨text, rfl⟩ := List.getLast?_eq_some_iff.1 hlast
    rw [apply_append_nonword (List.forall_mem_singleton.2 (by decide)),
      if_pos List.getLast?_concat, if_pos hlast, List.dropLast_concat, List.dropLast_concat]
  · rw [if_neg fun h => hlast (getLast?_of_apply h (by decide)), if_neg hlast]

/-- The strip markers stay, and the middle is respelled. -/
theorem stripMarkers_apply (inside : List Char) :
    stripMarkers (s.apply false inside) =
      ((stripMarkers inside).1, s.apply false (stripMarkers inside).2.1,
        (stripMarkers inside).2.2) := by
  by_cases htilde : inside.head? = some '~'
  · obtain ⟨rest, rfl⟩ := List.head?_eq_some_iff.1 htilde
    rw [s.apply_cons_of_nonword _ _ (by decide)]
    simp only [stripMarkers, takeEndTilde_apply]
  · rw [stripMarkers_of_head? (by rwa [head?_apply]), stripMarkers_of_head? htilde,
      takeEndTilde_apply]

/-! ## Keywords -/

/-- Inside a word nothing is respelled. -/
theorem isPrefix_apply_true {word : List Char} (hword : ∀ c ∈ word, isWordChar c = true) :
    word <+: s.apply true cs ↔ word <+: cs := by
  induction word generalizing cs with
  | nil => simp
  | cons c word ih =>
      rw [List.forall_mem_cons] at hword
      cases cs with
      | nil => rw [apply_nil]
      | cons d cs =>
          rw [apply_true_cons, List.cons_prefix_cons, List.cons_prefix_cons]
          refine and_congr_right ?_
          rintro rfl
          rw [hword.1, ih hword.2]

theorem drop_apply_true {word : List Char} (hword : ∀ c ∈ word, isWordChar c = true) :
    (s.apply true (word ++ cs)).drop word.length = s.apply true cs := by
  induction word with
  | nil => rfl
  | cons c word ih =>
      rw [List.forall_mem_cons] at hword
      rw [List.cons_append, apply_true_cons, hword.1, List.length_cons, List.drop_succ_cons,
        ih hword.2]

section
variable {first : Char} {keyword : List Char}
  (hkeyword : ∀ c ∈ first :: keyword, isWordChar c = true) (hfirst : s.old.head? ≠ some first)

include hkeyword hfirst

/-- A text that begins like no word. -/
theorem apply_keyword (cs : List Char) :
    s.apply false (first :: cs) = first :: s.apply true cs := by
  rw [apply_cons (not_occursAt_of_head_ne hfirst), hkeyword first (by simp)]

theorem isPrefix_apply_keyword (cs : List Char) :
    first :: keyword <+: s.apply false cs ↔ first :: keyword <+: cs := by
  cases cs with
  | nil => rw [apply_nil]
  | cons d cs =>
      by_cases hd : first = d
      · subst hd
        rw [apply_keyword hkeyword hfirst, List.cons_prefix_cons, List.cons_prefix_cons,
          isPrefix_apply_true (List.forall_mem_cons.1 hkeyword).2]
      · obtain ⟨ds, hds⟩ := List.head?_eq_some_iff.1 (s.head?_apply false (d :: cs))
        rw [hds, List.cons_prefix_cons, List.cons_prefix_cons]
        exact iff_of_false (hd ·.1) (hd ·.1)

theorem drop_apply_keyword (cs : List Char) :
    (s.apply false (first :: keyword ++ cs)).drop (first :: keyword).length = s.apply true cs := by
  rw [List.cons_append, apply_keyword hkeyword hfirst, List.length_cons, List.drop_succ_cons,
    drop_apply_true (List.forall_mem_cons.1 hkeyword).2]

/-- A keyword before a blank. The blank is not respelled, and a word may begin after it. -/
theorem afterKeyword?_apply (cs : List Char) :
    afterKeyword? (first :: keyword) (s.apply false cs) =
      (afterKeyword? (first :: keyword) cs).map (s.apply false) := by
  by_cases hbegins : first :: keyword <+: cs
  · obtain ⟨rest, rfl⟩ := hbegins
    have hafter : (first :: keyword).isPrefixOf (s.apply false (first :: keyword ++ rest)) = true :=
      List.isPrefixOf_iff_prefix.2
        ((isPrefix_apply_keyword hkeyword hfirst _).2 (List.prefix_append _ rest))
    have hbefore : (first :: keyword).isPrefixOf (first :: keyword ++ rest) = true :=
      List.isPrefixOf_iff_prefix.2 (List.prefix_append _ rest)
    simp only [afterKeyword?, hafter, hbefore, drop_apply_keyword hkeyword hfirst, List.drop_left,
      head?_apply, Bool.true_and]
    by_cases hblank : rest.head?.any Text.isBlank = true
    · rw [if_pos hblank, if_pos hblank, Option.map_some, apply_of_not_startsWord]
      cases rest with
      | nil => rfl
      | cons b rest => exact isWordChar_of_isBlank hblank
    · rw [if_neg hblank, if_neg hblank, Option.map_none]
  · have hafter := mt (isPrefix_apply_keyword hkeyword hfirst cs).1 hbegins
    rw [← List.isPrefixOf_iff_prefix, Bool.not_eq_true] at hbegins hafter
    simp only [afterKeyword?, hbegins, hafter, Bool.false_and, if_neg Bool.false_ne_true,
      Option.map_none]

end

/-! ## Loops -/

theorem isWordChar_of_isAsciiBlank (h : Text.isAsciiBlank c = true) : isWordChar c = false := by
  simp only [Text.isAsciiBlank, Bool.or_eq_true, beq_iff_eq] at h
  rcases h with (((rfl | rfl) | rfl) | rfl) | rfl <;> decide

theorem throughIn?_found {b a : Char} (hb : Text.isAsciiBlank b = true)
    (ha : Text.isAsciiBlank a = true) :
    throughIn? (b :: 'i' :: 'n' :: a :: cs) = some ([b, 'i', 'n'], a :: cs) := by
  rw [throughIn?, hb, ha]
  rfl

theorem throughIn?_skip {b : Char} (h : ¬ (Text.isAsciiBlank b = true ∧
    ∃ a rest, cs = 'i' :: 'n' :: a :: rest ∧ Text.isAsciiBlank a = true)) :
    throughIn? (b :: cs) =
      (throughIn? cs).map fun (front, rest) => (b :: front, rest) := by
  by_cases hin : ∃ a rest, cs = 'i' :: 'n' :: a :: rest
  · obtain ⟨a, rest, rfl⟩ := hin
    rw [throughIn?, if_neg]
    rw [Bool.and_eq_true]
    exact fun hblank => h ⟨hblank.1, a, rest, rfl, hblank.2⟩
  · rw [throughIn?]
    rintro a rest rfl
    exact hin ⟨a, rest, rfl⟩

theorem map_snd_throughIn?_skip {b : Char} (h : ¬ (Text.isAsciiBlank b = true ∧
    ∃ a rest, cs = 'i' :: 'n' :: a :: rest ∧ Text.isAsciiBlank a = true)) :
    (throughIn? (b :: cs)).map Prod.snd = (throughIn? cs).map Prod.snd := by
  rw [throughIn?_skip h, Option.map_map]
  rfl

theorem map_snd_throughIn?_letters {letters : List Char}
    (h : ∀ c ∈ letters, isWordChar c = true) :
    (throughIn? (letters ++ cs)).map Prod.snd = (throughIn? cs).map Prod.snd := by
  induction letters with
  | nil => rfl
  | cons c letters ih =>
      rw [List.forall_mem_cons] at h
      rw [List.cons_append, map_snd_throughIn?_skip, ih h.2]
      rintro ⟨hc, -⟩
      rw [isWordChar_of_isAsciiBlank hc] at h
      exact Bool.noConfusion h.1

/-- What comes after the first `in` between blanks. -/
theorem map_snd_throughIn?_apply (s : Respelling) (inWord : Bool) (cs : List Char) :
    (throughIn? (s.apply inWord cs)).map Prod.snd =
      ((throughIn? cs).map Prod.snd).map (s.apply false) := by
  have hkeyword : ∀ c ∈ ['i', 'n'], isWordChar c = true := List.all_eq_true.1 (by decide)
  have hfirst : s.old.head? ≠ some 'i' := s.head_ne 'i' (by decide)
  induction inWord, cs using s.induct with
  | nil inWord =>
      rw [apply_nil]
      rfl
  | occurrence text hstart ih =>
      rw [apply_occurrence s hstart, map_snd_throughIn?_letters fun _ => s.isWordChar_of_mem_new,
        map_snd_throughIn?_letters fun _ => s.isWordChar_of_mem_old, ih]
  | char inWord c cs hc ih =>
      rw [apply_cons hc]
      by_cases hfound : Text.isAsciiBlank c = true ∧
          ∃ a rest, cs = 'i' :: 'n' :: a :: rest ∧ Text.isAsciiBlank a = true
      · obtain ⟨hblank, a, rest, rfl, ha⟩ := hfound
        have hin : s.apply (isWordChar c) ('i' :: 'n' :: a :: rest) =
            'i' :: 'n' :: a :: s.apply false rest := by
          rw [isWordChar_of_isAsciiBlank hblank, apply_keyword hkeyword hfirst, apply_true_cons,
            s.apply_cons_of_nonword _ _ (isWordChar_of_isAsciiBlank ha)]
        rw [hin, throughIn?_found hblank ha, throughIn?_found hblank ha, Option.map_some,
          Option.map_some, Option.map_some,
          s.apply_cons_of_nonword _ _ (isWordChar_of_isAsciiBlank ha)]
      · rw [map_snd_throughIn?_skip hfound, map_snd_throughIn?_skip, ih]
        rintro ⟨hblank, a, rest, hrest, ha⟩
        -- A keyword that is there after the respelling was there before.
        rw [isWordChar_of_isAsciiBlank hblank] at hrest
        have hbegins := (isPrefix_apply_keyword hkeyword hfirst cs).1
          ⟨a :: rest, by rw [hrest]; rfl⟩
        obtain ⟨text, rfl⟩ := hbegins
        have hafter := drop_apply_keyword hkeyword hfirst text
        rw [hrest] at hafter
        obtain ⟨tail, rfl, -⟩ := apply_eq_cons hafter.symm (isWordChar_of_isAsciiBlank ha)
        exact hfound ⟨hblank, a, tail, rfl, ha⟩

/-! ## Controlling expressions -/

theorem controlledText?_apply (words : List Char) :
    controlledText? (s.apply false words) = (controlledText? words).map (s.apply false) := by
  have hif : afterKeyword? ['i', 'f'] (s.apply false words) = _ :=
    afterKeyword?_apply (List.all_eq_true.1 (by decide)) (s.head_ne 'i' (by decide)) words
  have hfor : afterKeyword? ['f', 'o', 'r'] (s.apply false words) = _ :=
    afterKeyword?_apply (List.all_eq_true.1 (by decide)) (s.head_ne 'f' (by decide)) words
  rw [controlledText?, controlledText?, hif]
  cases afterKeyword? ['i', 'f'] words with
  | some rest => rfl
  | none =>
      simp only [Option.map_none]
      rw [hfor, map_snd_throughIn?_apply]
      cases afterKeyword? ['f', 'o', 'r'] words <;> rfl

/-- The parts of a directive are respelled one by one. -/
theorem controlling?_apply (cs : List Char) :
    controlling? (s.apply false cs) = (controlling? cs).map fun (before, expr, tail) =>
      (s.apply false before, s.apply false expr, tail) := by
  have hcontrolled := controlledText?_apply (s := s) (Text.trimStart cs)
  rw [← trimStart_apply] at hcontrolled
  cases hrest : controlledText? (Text.trimStart cs) with
  | none =>
      rw [hrest] at hcontrolled
      rw [controlling?, controlling?, hcontrolled, hrest]
      rfl
  | some rest =>
      rw [hrest, Option.map_some] at hcontrolled
      obtain ⟨front, b, after, hfront, hb, hblank⟩ := blankRest_controlledText? hrest
      obtain ⟨lead, tail, hsplit, hstart, hlead, htail⟩ := exists_trimmed rest
      have hnonword : startsWord rest = false := hb ▸ isWordChar_of_isBlank hblank
      have hcs : cs = (cs.takeWhile Text.isBlank ++ front) ++ rest := by
        rw [List.append_assoc, ← hfront, Text.trimStart, List.takeWhile_append_dropWhile]
      generalize cs.takeWhile Text.isBlank ++ front = before at hcs
      subst hcs
      rw [s.apply_append fun _ => hnonword, apply_of_not_startsWord hnonword] at hcontrolled ⊢
      -- Blanks stay, also those around the expression.
      have htail' : ∀ c ∈ tail, isWordChar c = false :=
        fun c hc => isWordChar_of_isBlank (htail c hc)
      have hlead' : ∀ c ∈ lead, isWordChar c = false := by
        rw [hlead]
        exact fun c hc => isWordChar_of_isBlank (List.mem_takeWhile_imp hc)
      have hstart' : Text.trimStart (s.apply false rest) =
          Text.trim (s.apply false rest) ++ tail := by
        rw [trimStart_apply, hstart, apply_append_nonword htail', trim_apply]
      have hsplit' : s.apply false rest = lead ++ Text.trim (s.apply false rest) ++ tail := by
        calc
          s.apply false rest
              = (s.apply false rest).takeWhile Text.isBlank ++
                  Text.trimStart (s.apply false rest) := List.takeWhile_append_dropWhile.symm
          _ = lead ++ Text.trim (s.apply false rest) ++ tail := by
                rw [takeWhile_apply fun _ => isWordChar_of_isBlank, ← hlead, hstart',
                  List.append_assoc]
      rw [controlling?_append hcontrolled hsplit' hstart', controlling?_append hrest hsplit hstart,
        trim_apply]
      by_cases hnil : Text.trim rest = []
      · rw [if_pos hnil, hnil, apply_nil, if_pos rfl]
        rfl
      · rw [if_neg hnil, if_neg fun h => hnil (apply_eq_nil h), Option.map_some]
        dsimp only
        rw [apply_append_nonword hlead']

end Respelling

end Hcl
end ProviderMigration
