import ProviderMigration.Proofs.Hcl.Respelling.Line
import ProviderMigration.Proofs.Hcl.Respelling.Segment
import ProviderMigration.Proofs.Hcl.Token.Comment

/-!
# Respelling tokens

A text is cut into the same tokens where a word in it is respelled, with the word respelled in each
of them (`tokenizeAt_respelt`). That a name, a comment, a string or a heredoc ends where it did
holds of one kind of token after the other.

* `Fits` — what a text must not have for this;
* `TokenRespelt` — a token and what it becomes;
* `keepsToken` — the token at the start of a text.
-/

namespace ProviderMigration
namespace Hcl

open Text (isWordChar startsWord)
open Lexeme (isSeparator isIdentStart isIdentChar takeOne takeLineBreak exponent? fraction?
  throughCommentEnd? heredoc? untilMarker?)

namespace Respelling

/-! ## Texts -/

/-- A text that is cut into tokens in the same way where the word is respelled. A digit right before
the word would keep it from standing alone, though the two are different tokens; a heredoc could end
elsewhere if its marker contained one of the words; and right after the word, an escape could stand
for a word character. -/
structure Fits (s : Respelling) (cs : List Char) : Prop where
  digit : ∀ c : Char, c.isDigit = true → ¬ c :: s.old <:+: cs
  marker : ∀ name : List Char, (∀ c ∈ name, isIdentChar c = true) → '<' :: '<' :: name <:+: cs →
    ¬ s.old <:+: name ∧ ¬ s.new <:+: name
  escape : s.EscapeFree cs

theorem Fits.within {s : Respelling} {cs part : List Char} (h : s.Fits cs) (hpart : part <:+: cs) :
    s.Fits part :=
  ⟨fun c hc hwithin => h.digit c hc (hwithin.trans hpart),
    fun name hname hwithin => h.marker name hname (hwithin.trans hpart), h.escape.within hpart⟩

/-- A text without digits, heredocs and escapes. -/
theorem fits_of_plain {s : Respelling} {cs : List Char} (hdigit : cs.any Char.isDigit = false)
    (hheredoc : '<' ∉ cs) (hescape : '\\' ∉ cs) : s.Fits cs where
  digit c hc hwithin :=
    absurd hc (List.any_eq_false.1 hdigit c (hwithin.subset List.mem_cons_self))
  marker _ _ hwithin := absurd (hwithin.subset List.mem_cons_self) hheredoc
  escape _ _ hwithin := absurd (hwithin.subset (by simp)) hescape

/-! ## Tokens -/

/-- A name and what it becomes where the word is respelled. -/
structure NameRespelt (s : Respelling) (name name' : String) : Prop where
  keeps : s.Keeps false name.toList name'.toList
  new : name' = name ∨ s.new <:+: name'.toList
  /-- The word itself becomes the other word. -/
  renamed : name.toList = s.old → name'.toList = s.new

/-- A token and what it becomes where the word is respelled. -/
inductive TokenRespelt (s : Respelling) : Token → Token → Prop
  | newline : TokenRespelt s .newline .newline
  | lineComment {text text' : String} (h : s.Keeps false text.toList text'.toList) :
      TokenRespelt s (.lineComment text) (.lineComment text')
  | blockComment {text text' : String} (h : s.Keeps false text.toList text'.toList) :
      TokenRespelt s (.blockComment text) (.blockComment text')
  | ident {name name' : String} (h : s.NameRespelt name name') :
      TokenRespelt s (.ident name) (.ident name')
  | number (text : String) : TokenRespelt s (.number text) (.number text)
  | quoted {raw : List Char} (h : s.Fits raw) :
      TokenRespelt s (.quoted raw) (.quoted (s.apply false raw))
  | heredoc {text : HeredocText} (h : s.Fits text.content) :
      TokenRespelt s (.heredoc text)
        (.heredoc { text with content := s.apply false text.content })
  | symbol (t : Symbol) : TokenRespelt s (.symbol t) (.symbol t)

variable {s : Respelling} {inWord : Bool} {c : Char} {cs ds text rest : List Char}

theorem nameRespelt_apply {name : List Char} (h : name = s.old → inWord = false) :
    s.NameRespelt (String.ofList name) (String.ofList (s.apply inWord name)) where
  keeps := by
    rw [String.toList_ofList, String.toList_ofList]
    exact (keeps_apply s inWord name).free
  new := by
    rw [String.toList_ofList]
    exact (s.apply_eq_or_infix inWord name).imp_left (congrArg String.ofList)
  renamed := by
    rw [String.toList_ofList, String.toList_ofList]
    rintro hname
    rw [h hname, hname]
    have hwhole : s.apply false (s.old ++ []) = s.new ++ s.apply true [] := apply_occurrence s rfl
    rwa [List.append_nil, apply_nil, List.append_nil] at hwhole

/-! ## Numbers -/

theorem takeOne_apply {p : Char → Bool} (hp : ∀ c, p c = true → s.old.head? ≠ some c)
    (inWord : Bool) (cs : List Char) :
    takeOne p (s.apply inWord cs) =
      ((takeOne p cs).1, s.apply (endsWord inWord (takeOne p cs).1) (takeOne p cs).2) := by
  cases cs with
  | nil => rw [apply_nil, takeOne, apply_nil]
  | cons c cs =>
      by_cases hc : p c = true
      · rw [apply_cons (not_occursAt_of_head_ne (hp c hc)), takeOne, takeOne, if_pos hc, if_pos hc]
        rfl
      · obtain ⟨ds, hds⟩ := List.head?_eq_some_iff.1 (s.head?_apply inWord (c :: cs))
        rw [hds, takeOne, takeOne, if_neg hc, if_neg hc, ← hds]
        rfl

theorem not_head_of_isDigit (h : c.isDigit = true) : s.old.head? ≠ some c := by
  intro hhead
  exact not_isIdentStart_of_isDigit h (s.isIdentStart_of_mem_old (List.mem_of_head? hhead))

theorem digits_apply (inWord : Bool) (cs : List Char) :
    (s.apply inWord cs).takeWhile Char.isDigit = cs.takeWhile Char.isDigit ∧
      (s.apply inWord cs).dropWhile Char.isDigit =
        s.apply (endsWord inWord (cs.takeWhile Char.isDigit)) (cs.dropWhile Char.isDigit) := by
  induction cs generalizing inWord with
  | nil => simp [apply_nil]
  | cons c cs ih =>
      by_cases hc : c.isDigit = true
      · rw [apply_cons (not_occursAt_of_head_ne (not_head_of_isDigit hc)),
          List.takeWhile_cons_of_pos hc, List.takeWhile_cons_of_pos hc,
          List.dropWhile_cons_of_pos hc, List.dropWhile_cons_of_pos hc, (ih _).1, (ih _).2]
        exact ⟨rfl, rfl⟩
      · obtain ⟨ds, hds⟩ := List.head?_eq_some_iff.1 (s.head?_apply inWord (c :: cs))
        rw [List.takeWhile_cons_of_neg hc, List.dropWhile_cons_of_neg hc, endsWord, hds,
          List.takeWhile_cons_of_neg hc, List.dropWhile_cons_of_neg hc]
        exact ⟨rfl, rfl⟩

/-- After at least one digit the text goes on inside a word. -/
theorem endsWord_digits (h : cs.head?.any Char.isDigit = true) (inWord : Bool) :
    endsWord inWord (cs.takeWhile Char.isDigit) = true := by
  refine endsWord_of_forall (fun c hc => ?_) ?_
  · have hdigit : c.isDigit = true := List.mem_takeWhile_imp hc
    exact isWordChar_of_isAlphanum (by simp [Char.isAlphanum, hdigit])
  · cases cs with
    | nil => cases h
    | cons c cs =>
        have hc : c.isDigit = true := h
        simp [hc]

theorem exponent?_apply (inWord : Bool) (cs : List Char) :
    exponent? (s.apply inWord cs) = (exponent? cs).map fun (front, rest) =>
      (front, s.apply true rest) := by
  have hletter : ∀ c : Char, (c == 'e' || c == 'E') = true → s.old.head? ≠ some c := by
    intro c hc
    rw [Bool.or_eq_true, beq_iff_eq, beq_iff_eq] at hc
    rcases hc with rfl | rfl <;> exact s.head_ne _ (by decide)
  have hsign : ∀ c : Char, (c == '+' || c == '-') = true → s.old.head? ≠ some c := by
    intro c hc hhead
    have hword := s.isWordChar_of_mem_old (List.mem_of_head? hhead)
    rw [Bool.or_eq_true, beq_iff_eq, beq_iff_eq] at hc
    rcases hc with rfl | rfl <;> exact absurd hword (by decide)
  simp only [exponent?, takeOne_apply hletter, takeOne_apply hsign, head?_apply]
  split
  · rename_i h
    have hdigit := (Bool.and_eq_true_iff.1 h).2
    rw [(digits_apply _ _).1, (digits_apply _ _).2, endsWord_digits hdigit]
    rfl
  · rfl

theorem fraction?_apply (inWord : Bool) (cs : List Char) :
    fraction? (s.apply inWord cs) = (fraction? cs).map fun (front, rest) =>
      (front, s.apply true rest) := by
  by_cases hpoint : cs.head? = some '.'
  · obtain ⟨rest, rfl⟩ := List.head?_eq_some_iff.1 hpoint
    rw [s.apply_cons_of_nonword _ _ (by decide), fraction?, fraction?, head?_apply]
    split
    · rename_i hdigit
      rw [(digits_apply _ _).1, (digits_apply _ _).2, endsWord_digits hdigit]
      rfl
    · rfl
  · have hnone : ∀ text : List Char, text.head? ≠ some '.' → fraction? text = none := by
      intro text h
      unfold fraction?
      split
      · exact absurd rfl h
      · rfl
    rw [hnone cs hpoint, hnone _ (by rwa [head?_apply])]
    rfl

/-- A number is read as before. After it the text goes on inside a word. -/
theorem number_apply (h : cs.head?.any Char.isDigit = true) (inWord : Bool) :
    Lexeme.number (s.apply inWord cs) =
      { Lexeme.number cs with rest := s.apply true (Lexeme.number cs).rest } := by
  simp only [Lexeme.number, (digits_apply inWord cs).1, (digits_apply inWord cs).2,
    endsWord_digits h, fraction?_apply]
  generalize cs.dropWhile Char.isDigit = tail
  have hfraction : ((fraction? tail).map fun p => (p.1, s.apply true p.2)).getD
      ([], s.apply true tail) = (((fraction? tail).getD ([], tail)).1,
        s.apply true ((fraction? tail).getD ([], tail)).2) := by
    cases fraction? tail <;> rfl
  rw [hfraction]
  generalize (fraction? tail).getD ([], tail) = fraction
  simp only [exponent?_apply]
  cases exponent? fraction.2 <;> rfl

theorem getLast?_digits (h : cs.head?.any Char.isDigit = true) :
    (cs.takeWhile Char.isDigit).getLast?.any Char.isDigit = true := by
  cases hlast : (cs.takeWhile Char.isDigit).getLast? with
  | none =>
      rw [List.getLast?_eq_none_iff] at hlast
      cases cs with
      | nil => cases h
      | cons c cs =>
          have hc : c.isDigit = true := h
          simp [hc] at hlast
  | some c =>
      have hc : c.isDigit = true := List.mem_takeWhile_imp (List.mem_of_getLast? hlast)
      exact hc

/-- A number ends with a digit. -/
theorem getLast?_number (h : cs.head?.any Char.isDigit = true) :
    (Lexeme.number cs).chars.getLast?.any Char.isDigit = true := by
  have happend (front : List Char) {back : List Char}
      (hback : back.getLast?.any Char.isDigit = true) :
      (front ++ back).getLast?.any Char.isDigit = true := by
    rw [List.getLast?_append]
    cases hlast : back.getLast? with
    | none => simp [hlast] at hback
    | some c => simpa [hlast] using hback
  -- An exponent and a fraction have digits at their end, or they are not read.
  have hexponent {text front rest : List Char} (hfound : exponent? text = some (front, rest)) :
      front.getLast?.any Char.isDigit = true := by
    simp only [exponent?] at hfound
    split at hfound
    · rename_i hcond
      obtain ⟨rfl, -⟩ := Prod.mk.inj (Option.some.inj hfound)
      exact happend _ (getLast?_digits (Bool.and_eq_true_iff.1 hcond).2)
    · cases hfound
  have hfraction {text front rest : List Char} (hfound : fraction? text = some (front, rest)) :
      front.getLast?.any Char.isDigit = true := by
    unfold fraction? at hfound
    split at hfound
    · split at hfound
      · rename_i hcond
        obtain ⟨rfl, -⟩ := Prod.mk.inj (Option.some.inj hfound)
        exact happend ['.'] (getLast?_digits hcond)
      · cases hfound
    · cases hfound
  simp only [Lexeme.number]
  cases hlast : exponent? ((fraction? (cs.dropWhile Char.isDigit)).getD
      ([], cs.dropWhile Char.isDigit)).2 with
  | some found => exact happend _ (hexponent hlast)
  | none =>
      simp only [Option.getD_none, List.append_nil]
      cases hmiddle : fraction? (cs.dropWhile Char.isDigit) with
      | some found => exact happend _ (hfraction hmiddle)
      | none => simpa using getLast?_digits h

/-! ## Comments -/

theorem map_snd_throughCommentEnd?_cons (h : ¬ (c = '*' ∧ ∃ rest, cs = '/' :: rest)) :
    (throughCommentEnd? (c :: cs)).map Prod.snd = (throughCommentEnd? cs).map Prod.snd := by
  rw [throughCommentEnd?, Option.map_map]
  · rfl
  · exact fun rest hc hcs => h ⟨hc, rest, hcs⟩

theorem map_snd_throughCommentEnd?_letters {letters : List Char}
    (h : ∀ c ∈ letters, isWordChar c = true) :
    (throughCommentEnd? (letters ++ cs)).map Prod.snd =
      (throughCommentEnd? cs).map Prod.snd := by
  induction letters with
  | nil => rfl
  | cons c letters ih =>
      rw [List.forall_mem_cons] at h
      rw [List.cons_append, map_snd_throughCommentEnd?_cons, ih h.2]
      rintro ⟨rfl, -⟩
      exact absurd h.1 (by decide)

theorem map_snd_throughCommentEnd?_apply (s : Respelling) (inWord : Bool) (cs : List Char) :
    (throughCommentEnd? (s.apply inWord cs)).map Prod.snd =
      ((throughCommentEnd? cs).map Prod.snd).map (s.apply false) := by
  induction inWord, cs using s.induct with
  | nil inWord =>
      rw [apply_nil]
      rfl
  | occurrence text hstart ih =>
      rw [apply_occurrence s hstart,
        map_snd_throughCommentEnd?_letters fun _ => s.isWordChar_of_mem_new,
        map_snd_throughCommentEnd?_letters fun _ => s.isWordChar_of_mem_old, ih]
  | char inWord c cs hc ih =>
      rw [apply_cons hc]
      by_cases hclose : c = '*' ∧ ∃ rest, cs = '/' :: rest
      · obtain ⟨rfl, rest, rfl⟩ := hclose
        rw [s.apply_cons_of_nonword _ _ (by decide)]
        rfl
      · rw [map_snd_throughCommentEnd?_cons hclose, map_snd_throughCommentEnd?_cons, ih]
        rintro ⟨rfl, rest, hrest⟩
        obtain ⟨tail, htail, -⟩ := apply_eq_cons hrest (by decide)
        exact hclose ⟨rfl, tail, htail⟩

theorem endsWord_throughCommentEnd? {inside after : List Char}
    (h : throughCommentEnd? cs = some (inside, after)) (inWord : Bool) :
    endsWord inWord inside = false := by
  fun_induction throughCommentEnd? cs generalizing inside inWord with
  | case1 cs =>
      obtain ⟨rfl, rfl⟩ := Prod.mk.inj (Option.some.inj h)
      exact (by decide : isWordChar '/' = false)
  | case2 c cs _ ih =>
      obtain ⟨⟨front, _⟩, hfront, hpair⟩ := Option.map_eq_some_iff.1 h
      obtain ⟨rfl, rfl⟩ := Prod.mk.inj hpair
      exact ih hfront _
  | case3 => cases h

/-- The inside of a block comment is respelled, and so is what comes after it. -/
theorem throughCommentEnd?_apply (s : Respelling) (inWord : Bool) (cs : List Char) :
    throughCommentEnd? (s.apply inWord cs) = (throughCommentEnd? cs).map fun (inside, after) =>
      (s.apply inWord inside, s.apply false after) := by
  have hsnd := s.map_snd_throughCommentEnd?_apply inWord cs
  cases hend : throughCommentEnd? cs with
  | none =>
      rw [hend] at hsnd
      simpa using hsnd
  | some found =>
      obtain ⟨inside, after⟩ := found
      rw [hend] at hsnd
      obtain ⟨⟨inside', after'⟩, hfound, rfl⟩ := Option.map_eq_some_iff.1 hsnd
      have htext := Lexeme.throughCommentEnd?_eq_append hfound
      rw [← Lexeme.throughCommentEnd?_eq_append hend] at htext
      have hends := endsWord_throughCommentEnd? hend inWord
      have hcut : endsWord inWord inside = true → startsWord after = false := by
        rw [hends]
        nofun
      rw [s.apply_append hcut, hends] at htext
      have hinside : inside' = s.apply inWord inside := List.append_cancel_right htext
      rw [hfound, hinside]
      rfl

/-! ## Lexemes -/

/-- A lexeme and what it becomes where the word is respelled. The text after it is respelled too;
if it goes on inside a word, the word does not begin there. -/
structure LexemeRespelt (s : Respelling) (l l' : Lexeme) : Prop where
  token : s.TokenRespelt l.token l'.token
  rest : ∃ inWord, l'.rest = s.apply inWord l.rest ∧ (inWord = true → ¬ s.old <+: l.rest)

theorem LexemeRespelt.of_false {l l' : Lexeme} (htoken : s.TokenRespelt l.token l'.token)
    (hrest : l'.rest = s.apply false l.rest) : s.LexemeRespelt l l' :=
  ⟨htoken, false, hrest, nofun⟩

theorem lineComment_respelt (inWord : Bool) (cs : List Char) :
    s.LexemeRespelt (Lexeme.lineComment cs) (Lexeme.lineComment (s.apply inWord cs)) := by
  obtain ⟨htake, hdrop⟩ := s.line_apply inWord cs
  refine .of_false ?_ hdrop
  rw [Lexeme.lineComment, Lexeme.lineComment, htake]
  refine .lineComment ?_
  rw [String.toList_ofList, String.toList_ofList, trimEnd_apply]
  exact (keeps_apply ..).free

theorem takeLineBreak_apply (hbreak : (takeLineBreak cs).1 ≠ []) :
    startsWord cs = false ∧ takeLineBreak (s.apply false cs) =
      ((takeLineBreak cs).1, s.apply false (takeLineBreak cs).2) := by
  unfold takeLineBreak at hbreak
  split at hbreak
  · rw [s.apply_cons_of_nonword _ _ (by decide)]
    exact ⟨(by decide : isWordChar '\n' = false), rfl⟩
  · rw [s.apply_cons_of_nonword _ _ (by decide), s.apply_cons_of_nonword _ _ (by decide)]
    exact ⟨(by decide : isWordChar '\r' = false), rfl⟩
  · exact absurd rfl hbreak

theorem isIdentChar_of_mem_new (s : Respelling) (h : c ∈ s.new) : isIdentChar c = true :=
  isIdentChar_of_isIdentStart (s.isIdentStart_of_mem_new h)

/-- The optional dash of a heredoc. -/
theorem takeOne_dash (s : Respelling) (cs : List Char) :
    takeOne (· == '-') (s.apply false cs) =
      ((takeOne (· == '-') cs).1, s.apply false (takeOne (· == '-') cs).2) := by
  have hdash : ∀ c : Char, (c == '-') = true → s.old.head? ≠ some c := by
    intro c hc hhead
    obtain rfl := eq_of_beq hc
    exact absurd (s.isWordChar_of_mem_old (List.mem_of_head? hhead)) (by decide)
  have hends : endsWord false (takeOne (· == '-') cs).1 = false := by
    cases cs with
    | nil => rfl
    | cons c cs =>
        rw [takeOne]
        split
        · rename_i hc
          obtain rfl := eq_of_beq hc
          exact (by decide : isWordChar '-' = false)
        · rfl
  rw [takeOne_apply hdash, hends]

theorem mem_takeOne {p : Char → Bool} (h : c ∈ (takeOne p cs).1) : p c = true := by
  cases cs with
  | nil => cases h
  | cons d cs =>
      rw [takeOne] at h
      split at h
      · rename_i hd
        obtain rfl := List.mem_singleton.1 h
        exact hd
      · cases h

theorem heredoc?_none (h : heredoc? cs = none) : heredoc? (s.apply false cs) = none := by
  simp only [heredoc?, takeOne_dash, head?_apply] at h ⊢
  split at h
  · split at h <;> cases h
  · rename_i hstart
    rw [if_neg hstart]

theorem heredoc_respelt {l : Lexeme} (hfits : s.Fits ('<' :: '<' :: cs))
    (h : Lexeme.HeredocRule cs l) :
    ∃ l', Lexeme.HeredocRule (s.apply false cs) l' ∧ s.LexemeRespelt l l' := by
  cases h with
  | @marked dash name lineBreak lines content marker after hdash hname hline hbreak hend =>
      have hcs := Lexeme.takeOne_append (· == '-') cs
      have hdash' := s.takeOne_dash cs
      rw [hdash] at hcs hdash'
      have hident : ∀ c ∈ dash, isIdentChar c = true := by
        intro c hc
        have hmem : c ∈ (takeOne (· == '-') cs).1 := by rwa [hdash]
        have hc' : (c == '-') = true := mem_takeOne (p := fun c => c == '-') hmem
        obtain rfl := eq_of_beq hc'
        decide
      subst hcs
      have hmarker : ¬ s.old <:+: name.takeWhile isIdentChar ∧
          ¬ s.new <:+: name.takeWhile isIdentChar := by
        have hbegins : '<' :: '<' :: (dash ++ name.takeWhile isIdentChar) <:+:
            '<' :: '<' :: (dash ++ name) := by
          refine List.IsPrefix.isInfix ?_
          rw [List.cons_prefix_cons, List.cons_prefix_cons, List.prefix_append_right_inj]
          exact ⟨rfl, rfl, List.takeWhile_prefix _⟩
        have hword := hfits.marker (dash ++ name.takeWhile isIdentChar) (by
          intro c hc
          rcases List.mem_append.1 hc with hc | hc
          · exact hident c hc
          · exact List.mem_takeWhile_imp hc) hbegins
        have hsuffix := (List.suffix_append dash (name.takeWhile isIdentChar)).isInfix
        exact ⟨fun h => hword.1 (h.trans hsuffix), fun h => hword.2 (h.trans hsuffix)⟩
      have hbreak' : (takeLineBreak (name.dropWhile isIdentChar)).1 ≠ [] := by rwa [hline]
      obtain ⟨hcut, hlineBreak⟩ := takeLineBreak_apply (s := s) hbreak'
      obtain ⟨hname', hrest⟩ := span_apply (fun _ => s.isIdentChar_of_mem_new) hcut false
      have hkept : s.apply false (name.takeWhile isIdentChar) = name.takeWhile isIdentChar :=
        apply_of_not_infix hmarker.1
      rw [hkept] at hname'
      rw [hline, ← hrest] at hlineBreak
      have hend' := untilMarker?_apply hmarker.1 hmarker.2 lines
      rw [hend, Option.map_some, ← hname'] at hend'
      have hrule := Lexeme.HeredocRule.marked hdash' (by rwa [head?_apply]) hlineBreak hbreak hend'
      rw [hname'] at hrule
      refine ⟨_, hrule, .of_false (.heredoc (hfits.within ?_)) rfl⟩
      -- The content is a part of the lines, and these of the text.
      have hlines := Lexeme.untilMarker?_eq_append hend
      rw [Lexeme.splitLines_flatten, List.append_assoc] at hlines
      have hsuffix : lines <:+ name.dropWhile isIdentChar :=
        ⟨_, (congrArg (fun p => p.1 ++ p.2) hline).symm.trans (Lexeme.takeLineBreak_append _)⟩
      have hwithin := (hsuffix.trans (List.dropWhile_suffix _)).trans (List.suffix_append dash name)
      have hcontent : content <:+: lines := ⟨[], marker ++ after, hlines⟩
      exact hcontent.trans (hwithin.trans (List.suffix_append ['<', '<'] _)).isInfix

/-! ## Symbols -/

theorem isPrefix_apply_nonword {front : List Char} (h : ∀ c ∈ front, isWordChar c = false)
    (inWord : Bool) : front <+: s.apply inWord cs ↔ front <+: cs := by
  induction front generalizing inWord cs with
  | nil => simp
  | cons d front ih =>
      rw [List.forall_mem_cons] at h
      cases cs with
      | nil => rw [apply_nil]
      | cons c cs =>
          by_cases hc : d = c
          · subst hc
            rw [s.apply_cons_of_nonword _ _ h.1, List.cons_prefix_cons, List.cons_prefix_cons,
              ih h.2]
          · obtain ⟨ds, hds⟩ := List.head?_eq_some_iff.1 (s.head?_apply inWord (c :: cs))
            rw [hds, List.cons_prefix_cons, List.cons_prefix_cons]
            exact iff_of_false (hc ·.1) (hc ·.1)

theorem isWordChar_of_mem_chars (t : Symbol) : ∀ c ∈ t.chars, isWordChar c = false := by
  have hnone : t.chars.any isWordChar = false := by cases t <;> decide
  simpa using hnone

theorem read?_apply (inWord : Bool) (cs : List Char) :
    Symbol.read? (s.apply inWord cs) =
      (Symbol.read? cs).map fun (t, rest) => (t, s.apply false rest) := by
  have hbegins : (fun t : Symbol => t.chars.isPrefixOf (s.apply inWord cs)) =
      fun t => t.chars.isPrefixOf cs := by
    funext t
    rw [Bool.eq_iff_iff, List.isPrefixOf_iff_prefix, List.isPrefixOf_iff_prefix,
      isPrefix_apply_nonword (isWordChar_of_mem_chars t)]
  rw [Symbol.read?, Symbol.read?, hbegins]
  cases hfound : Symbol.all.find? fun t => t.chars.isPrefixOf cs with
  | none => rfl
  | some t =>
      have ht : t.chars.isPrefixOf cs = true := by simpa using List.find?_some hfound
      obtain ⟨rest, rfl⟩ := List.isPrefixOf_iff_prefix.1 ht
      rw [apply_append_of_nonword (isWordChar_of_mem_chars t) t.chars_ne_nil, Option.map_some,
        Option.map_some, Option.map_some, List.drop_left, List.drop_left]

/-- No symbol has a word character. -/
theorem isWordChar_of_read? {t : Symbol} (h : Symbol.read? (c :: cs) = some (t, rest)) :
    isWordChar c = false := by
  have hchars := Symbol.eq_append_of_read? h
  obtain ⟨d, ds, hd⟩ := List.exists_cons_of_ne_nil t.chars_ne_nil
  rw [hd, List.cons_append] at hchars
  obtain ⟨rfl, -⟩ := List.cons.inj hchars
  exact isWordChar_of_mem_chars t c (by simp [hd])

theorem punctuates_apply (h : Lexeme.Punctuates c cs) :
    Lexeme.Punctuates c (s.apply false cs) := by
  refine ⟨h.notNewline, h.notIdent, h.notDigit, h.notHash, h.notQuote, ?_, ?_⟩
  · rw [s.head?_apply]
    exact h.notComment
  · intro rest hc hrest
    obtain ⟨tail, rfl, rfl⟩ := apply_eq_cons hrest (by decide)
    exact heredoc?_none (h.notHeredoc tail hc rfl)

/-! ## Reading -/

/-- Where a token starts with a word character, it is a name or a number. -/
theorem isIdentChar_of_read {l : Lexeme} (h : Lexeme.read c cs = .ok l)
    (hc : isWordChar c = true) : isIdentChar c = true := by
  cases Lexeme.read_ok_iff.1 h with
  | ident hident => exact isIdentChar_of_isIdentStart hident
  | number hdigit => exact isIdentChar_of_isDigit hdigit
  | symbol _ hread => simp [isWordChar_of_read? hread] at hc
  | newline | hashComment | slashComment | blockComment | quoted | heredoc =>
      exact absurd hc (by decide)

/-- The token at the start of a text is the same kind of token where the word is respelled. -/
def KeepsToken (s : Respelling) (inWord : Bool) (c : Char) (cs : List Char) (l : Lexeme) : Prop :=
  ∃ ds l', s.apply inWord (c :: cs) = c :: ds ∧ Lexeme.read c ds = .ok l' ∧ s.LexemeRespelt l l'

theorem keepsToken_ident (hident : isIdentStart c = true)
    (hstart : inWord = true → ¬ s.old <+: c :: cs)
    (hcut : startsWord ((c :: cs).dropWhile isIdentChar) = false) :
    s.KeepsToken inWord c cs (Lexeme.ident (c :: cs)) := by
  obtain ⟨ds, hds⟩ := List.head?_eq_some_iff.1 (s.head?_apply inWord (c :: cs))
  refine ⟨ds, _, hds, read_of_isIdentStart hident ds, ?_⟩
  obtain ⟨hname, hrest⟩ := span_apply (fun _ => s.isIdentChar_of_mem_new) hcut inWord
  rw [← hds]
  refine .of_false ?_ hrest
  rw [Lexeme.ident, Lexeme.ident, hname]
  refine .ident (nameRespelt_apply fun hold => ?_)
  by_contra hinWord
  rw [Bool.not_eq_false] at hinWord
  refine hstart hinWord ?_
  rw [← hold]
  exact List.takeWhile_prefix _

theorem keepsToken_number (hfits : s.Fits (c :: cs)) (hdigit : c.isDigit = true) :
    s.KeepsToken inWord c cs (Lexeme.number (c :: cs)) := by
  obtain ⟨ds, hds⟩ := List.head?_eq_some_iff.1 (s.head?_apply inWord (c :: cs))
  have hhead : (c :: cs).head?.any Char.isDigit = true := hdigit
  refine ⟨ds, _, hds, read_of_isDigit hdigit ds, ?_⟩
  rw [← hds, number_apply hhead]
  refine ⟨.number _, true, rfl, ?_⟩
  -- The last digit would stand right before the word.
  rintro - ⟨text, htext⟩
  have hlast := getLast?_number hhead
  have hchars : _ = c :: cs := (Lexeme.number_readFrom hdigit).eq_append
  cases hd : (Lexeme.number (c :: cs)).chars.getLast? with
  | none => simp [hd] at hlast
  | some d =>
      rw [hd] at hlast
      obtain ⟨front, hfront⟩ := List.getLast?_eq_some_iff.1 hd
      refine hfits.digit d hlast ⟨front, text, ?_⟩
      rw [← hchars, hfront, ← htext]
      simp

/-- The token at the start of a text. -/
theorem keepsToken {l : Lexeme} (hfits : s.Fits (c :: cs))
    (hstart : inWord = true → ¬ s.old <+: c :: cs) (hread : Lexeme.read c cs = .ok l)
    (hcut : isIdentStart c = true → startsWord l.rest = false) : s.KeepsToken inWord c cs l := by
  have hcs := s.apply_cons_of_nonword inWord cs (c := c)
  cases Lexeme.read_ok_iff.1 hread with
  | newline => exact ⟨_, _, hcs (by decide), rfl, .of_false .newline rfl⟩
  | ident hident => exact keepsToken_ident hident hstart (hcut hident)
  | number hdigit => exact keepsToken_number hfits hdigit
  | hashComment =>
      refine ⟨_, _, hcs (by decide), rfl, ?_⟩
      rw [← hcs (by decide)]
      exact lineComment_respelt ..
  | @slashComment rest =>
      have hrest := s.apply_cons_of_nonword false rest (by decide : isWordChar '/' = false)
      refine ⟨_, _, (hcs (by decide)).trans (congrArg _ hrest), rfl, ?_⟩
      rw [← hrest, ← hcs (by decide)]
      exact lineComment_respelt ..
  | @blockComment rest inside after hend =>
      have hrest := s.apply_cons_of_nonword false rest (by decide : isWordChar '*' = false)
      have hend' := s.throughCommentEnd?_apply false rest
      rw [hend, Option.map_some] at hend'
      refine ⟨_, _, (hcs (by decide)).trans (congrArg _ hrest),
        Lexeme.read_ok_iff.2 (.blockComment hend'), .of_false (.blockComment ?_) rfl⟩
      simp only [String.toList_ofList]
      have hinside : s.Keeps (endsWord false ['/', '*']) inside (s.apply false inside) :=
        keeps_apply s false inside
      exact hinside.prepend
  | @quoted _ raw after hend =>
      have hend' : Template.quotedText? (s.apply false cs) = _ :=
        s.closing?_apply .quotes [] false cs
      rw [show Template.closing? .quotes [] cs = some (raw, after) from hend] at hend'
      refine ⟨_, _, hcs (by decide), Lexeme.read_ok_iff.2 (.quoted hend'),
        .of_false (.quoted (hfits.within ?_)) rfl⟩
      rw [Template.closing?_eq_append hend]
      exact ((List.prefix_append raw _).isInfix).trans (List.suffix_cons _ _).isInfix
  | @heredoc rest _ hheredoc =>
      have hrest := s.apply_cons_of_nonword false rest (by decide : isWordChar '<' = false)
      obtain ⟨l', hl', hrespelt⟩ := heredoc_respelt hfits hheredoc
      exact ⟨_, l', (hcs (by decide)).trans (congrArg _ hrest),
        Lexeme.read_ok_iff.2 (.heredoc hl'), hrespelt⟩
  | @symbol _ _ rest t hplain hsymbol =>
      have hnonword := isWordChar_of_read? hsymbol
      have hread' := read?_apply (s := s) inWord (c :: cs)
      rw [hcs hnonword, hsymbol, Option.map_some] at hread'
      exact ⟨_, _, hcs hnonword, Lexeme.read_ok_iff.2 (.symbol (punctuates_apply hplain) hread'),
        .of_false (.symbol t) rfl⟩

theorem isWordChar_of_isSeparator (h : isSeparator c = true) : isWordChar c = false := by
  simp only [isSeparator, Bool.or_eq_true, beq_iff_eq] at h
  rcases h with (rfl | rfl) | rfl <;> decide

/-- Where a text is cut into tokens, it begins with a word character only if a name or a number
begins there. -/
theorem isIdentChar_of_tokenizeAt {offset : Nat} {tokens : List Located}
    (h : tokenizeAt offset (c :: cs) = .ok tokens) (hc : isWordChar c = true) :
    isIdentChar c = true := by
  cases tokenizeAt_ok_iff.1 h with
  | separator hseparator => simp [isWordChar_of_isSeparator hseparator] at hc
  | lexeme _ hread => exact isIdentChar_of_read hread hc

theorem startsWord_of_tokenizeAt {offset : Nat} {tokens : List Located}
    (h : tokenizeAt offset (cs.dropWhile isIdentChar) = .ok tokens) :
    startsWord (cs.dropWhile isIdentChar) = false := by
  have hhead := List.head?_dropWhile_not isIdentChar cs
  cases hrest : cs.dropWhile isIdentChar with
  | nil => rfl
  | cons d rest =>
      rw [hrest] at h hhead
      by_contra hword
      rw [Bool.not_eq_false] at hword
      have hd := isIdentChar_of_tokenizeAt h hword
      simp [hd] at hhead

/-- A text that is cut into tokens still is where a word is respelled. -/
theorem tokenizeAt_respelt {offset : Nat} {tokens : List Located} (hfits : s.Fits cs)
    (hstart : inWord = true → ¬ s.old <+: cs) (h : tokenizeAt offset cs = .ok tokens)
    (offset' : Nat) :
    ∃ tokens', tokenizeAt offset' (s.apply inWord cs) = .ok tokens' ∧
      List.Forall₂ (fun t t' => s.TokenRespelt t.token t'.token) tokens tokens' := by
  rw [tokenizeAt_ok_iff] at h
  induction h generalizing inWord offset' with
  | nil =>
      rw [apply_nil, tokenizeAt]
      exact ⟨[], rfl, .nil⟩
  | @separator _ c cs _ hc _ ih =>
      rw [s.apply_cons_of_nonword _ _ (isWordChar_of_isSeparator hc), tokenizeAt_separator hc]
      have hfalse : false = true → ¬ s.old <+: cs := fun h => absurd h Bool.false_ne_true
      exact ih (hfits.within (List.suffix_cons c cs).isInfix) hfalse _
  | @lexeme _ c cs lexeme _ hc hread hrest ih =>
      have hreadFrom := Lexeme.read_readFrom hread
      have hcut : isIdentStart c = true → startsWord lexeme.rest = false := by
        intro hident
        rw [read_of_isIdentStart hident] at hread
        obtain rfl := Except.ok.inj hread
        exact startsWord_of_tokenizeAt (tokenizeAt_ok_iff.2 hrest)
      obtain ⟨ds, l', hds, hread', htoken, inWord', happly, hstart'⟩ :=
        keepsToken hfits hstart hread hcut
      have hsuffix : lexeme.rest <:+ c :: cs := ⟨lexeme.chars, hreadFrom.eq_append⟩
      obtain ⟨rest', hrest', hforall⟩ := ih (hfits.within hsuffix.isInfix) hstart'
        (offset' + Text.byteLength l'.chars)
      rw [hds, tokenizeAt_lexeme hc hread', happly, hrest']
      exact ⟨_, rfl, .cons htoken hforall⟩

end Respelling

end Hcl
end ProviderMigration
