import ProviderMigration.Proofs.Hcl.Template.Enclosure
import ProviderMigration.Proofs.Hcl.Token.Comment

/-!
# Tokens before a blank

A blank ends every token but a comment to the end of its line and a heredoc, whose last line is its
marker alone. So a text that ends with neither has the same tokens before a blank, whatever comes
after that (`tokenizeAt_append_blank`).

There is one lemma for each reader of the lexer: it reads the same before a blank, and that and the
text after it are left over (`Lexeme.before`).
-/

namespace ProviderMigration
namespace Hcl

open Text (dropEndWhile)
open Lexeme (isSeparator isIdentStart isIdentChar untilMarker? takeOne)

variable {cs : List Char} {c : Char} (s : List Char)

/-- The lexeme with a blank and more text behind what is left over. -/
def Lexeme.before (l : Lexeme) : Lexeme :=
  ⟨l.token, l.chars, l.rest ++ ' ' :: s⟩

/-! ## Words and numbers -/

theorem ident_blank (cs : List Char) :
    Lexeme.ident (cs ++ ' ' :: s) = (Lexeme.ident cs).before s := by
  have hends : WordEnds (' ' :: s) := wordEnds_cons (by decide)
  simp only [Lexeme.ident, Lexeme.before, takeWhile_append hends, dropWhile_append hends]

theorem takeOne_blank {p : Char → Bool} (h : p ' ' = false) (cs : List Char) :
    takeOne p (cs ++ ' ' :: s) = ((takeOne p cs).1, (takeOne p cs).2 ++ ' ' :: s) := by
  cases cs with
  | nil => simp [takeOne, h]
  | cons c cs => exact takeOne_append (by simp) _

theorem head?_any_blank {p : Char → Bool} (h : p ' ' = false) (cs : List Char) :
    (cs ++ ' ' :: s).head?.any p = cs.head?.any p := by
  cases cs with
  | nil => simpa using h
  | cons c cs => rfl

theorem exponent?_blank (cs : List Char) : Lexeme.exponent? (cs ++ ' ' :: s) =
    (Lexeme.exponent? cs).map fun p => (p.1, p.2 ++ ' ' :: s) := by
  have hends : WordEnds (' ' :: s) := wordEnds_cons (by decide)
  have hdigit := hends.not_digit
  have hletter := takeOne_blank s (p := fun c => c == 'e' || c == 'E') rfl
  have hsign := takeOne_blank s (p := fun c => c == '+' || c == '-') rfl
  simp only [Lexeme.exponent?, hletter, hsign, takeWhile_append hdigit, dropWhile_append hdigit,
    head?_any_blank s (p := Char.isDigit) rfl]
  split <;> rfl

theorem number_blank (cs : List Char) :
    Lexeme.number (cs ++ ' ' :: s) = (Lexeme.number cs).before s := by
  have hends : NumberEnds (' ' :: s) := numberEnds_cons (by decide)
  simp only [Lexeme.number, Lexeme.before, takeWhile_append hends.1.not_digit,
    dropWhile_append hends.1.not_digit, fraction?_append hends]
  cases Lexeme.fraction? (cs.dropWhile Char.isDigit) with
  | none =>
      simp only [Option.map_none, Option.getD_none, exponent?_blank]
      cases Lexeme.exponent? (cs.dropWhile Char.isDigit) <;> rfl
  | some found =>
      simp only [Option.map_some, Option.getD_some, exponent?_blank]
      cases Lexeme.exponent? found.2 <;> rfl

/-! ## Comments and quoted text -/

/-- A comment that ends before the text does. -/
theorem lineComment_blank (h : (Lexeme.lineComment cs).rest ≠ []) :
    Lexeme.lineComment (cs ++ ' ' :: s) = (Lexeme.lineComment cs).before s := by
  have hdrop : cs.dropWhile (· != '\n') ≠ [] := h
  have htake : (cs.takeWhile (· != '\n')).length ≠ cs.length := by
    intro hlength
    have hsplit := congrArg List.length (List.takeWhile_append_dropWhile (p := (· != '\n')) (l := cs))
    rw [List.length_append, hlength] at hsplit
    exact hdrop (List.eq_nil_of_length_eq_zero (by omega))
  simp only [Lexeme.lineComment, Lexeme.before, List.takeWhile_append, List.dropWhile_append,
    if_neg htake, List.isEmpty_iff, if_neg hdrop]

/-! ## Lines -/

/-- The first line of a text, with its line break. -/
def firstLine (cs : List Char) : List Char :=
  cs.takeWhile (· != '\n') ++ (cs.dropWhile (· != '\n')).take 1

/-- The text after its first line. -/
def afterLine (cs : List Char) : List Char :=
  (cs.dropWhile (· != '\n')).drop 1

theorem firstLine_cons (hc : c ≠ '\n') (cs : List Char) :
    firstLine (c :: cs) = c :: firstLine cs ∧ afterLine (c :: cs) = afterLine cs := by
  simp [firstLine, afterLine, hc]

theorem splitLines_of_ne_nil (h : cs ≠ []) :
    splitLines cs = firstLine cs :: splitLines (afterLine cs) := by
  induction cs with
  | nil => exact absurd rfl h
  | cons c cs ih =>
      by_cases hc : c = '\n'
      · subst hc
        rfl
      obtain ⟨hfirst, hafter⟩ := firstLine_cons hc cs
      rw [hfirst, hafter, splitLines, if_neg (by simpa using hc)]
      cases cs with
      | nil => rfl
      | cons d cs => rw [ih (by simp)]

theorem length_afterLine_lt (h : cs ≠ []) : (afterLine cs).length < cs.length := by
  cases cs with
  | nil => exact absurd rfl h
  | cons c cs =>
      by_cases hc : c = '\n'
      · subst hc
        exact Nat.lt_succ_self _
      · rw [(firstLine_cons hc cs).2, afterLine, List.length_drop, List.length_cons]
        have hle := List.IsSuffix.length_le (List.dropWhile_suffix (· != '\n') (l := cs))
        omega

theorem exists_dropEndWhile (p : Char → Bool) (text : List Char) :
    ∃ tail, text = dropEndWhile p text ++ tail ∧ ∀ c ∈ tail, p c = true := by
  refine ⟨(text.reverse.takeWhile p).reverse, ?_, ?_⟩
  · rw [dropEndWhile, ← List.reverse_append, List.takeWhile_append_dropWhile, List.reverse_reverse]
  · intro c hc
    exact List.mem_takeWhile_imp (List.mem_reverse.1 hc)

/-- Text after a line break leaves the lines before it as they are. -/
theorem firstLine_append (h : '\n' ∈ cs) (more : List Char) :
    firstLine (cs ++ more) = firstLine cs ∧ afterLine (cs ++ more) = afterLine cs ++ more := by
  induction cs with
  | nil => simp at h
  | cons c cs ih =>
      by_cases hc : c = '\n'
      · subst hc
        exact ⟨rfl, rfl⟩
      · obtain ⟨hfirst, hafter⟩ := ih ((List.mem_cons.1 h).resolve_left (Ne.symm hc))
        rw [List.cons_append, (firstLine_cons hc _).1, (firstLine_cons hc _).2,
          (firstLine_cons hc _).1, (firstLine_cons hc _).2, hfirst, hafter]
        exact ⟨rfl, rfl⟩

theorem firstLine_of_not_mem (h : '\n' ∉ cs) : firstLine cs = cs ∧ afterLine cs = [] := by
  have hdrop : cs.dropWhile (· != '\n') = [] := by
    refine List.dropWhile_eq_nil_iff.2 fun c hc => ?_
    rw [bne_iff_ne]
    rintro rfl
    exact h hc
  have htake : cs.takeWhile (· != '\n') = cs := by
    have hsplit := List.takeWhile_append_dropWhile (p := (· != '\n')) (l := cs)
    rwa [hdrop, List.append_nil] at hsplit
  rw [firstLine, afterLine, hdrop, htake]
  exact ⟨List.append_nil cs, rfl⟩

/-! ## Heredocs -/

/-- What stands after the marker on its line is a line break. -/
theorem mem_drop_marker {line : List Char}
    (h : c ∈ line.drop (dropEndWhile (fun c => c == '\n' || c == '\r') line).length) :
    c = '\n' ∨ c = '\r' := by
  obtain ⟨tail, hline, htail⟩ := exists_dropEndWhile (fun c => c == '\n' || c == '\r') line
  have hdrop := congrArg
    (List.drop (dropEndWhile (fun c => c == '\n' || c == '\r') line).length) hline
  rw [List.drop_left] at hdrop
  rw [hdrop] at h
  simpa using htail c h

/-- The marker line of a heredoc is found before more text, if it is not the last line. -/
theorem untilMarker?_append {delimiter content marker after : List Char}
    (h : untilMarker? delimiter (splitLines cs) = some (content, marker, after))
    (hafter : ∃ c ∈ after, isSeparator c = false) (more : List Char) :
    untilMarker? delimiter (splitLines (cs ++ more)) =
      some (content, marker, after ++ more) := by
  induction hlength : cs.length using Nat.strongRecOn generalizing cs content with
  | ind n ih =>
      subst hlength
      have hne : cs ≠ [] := by
        rintro rfl
        cases h
      rw [splitLines_of_ne_nil hne, untilMarker?] at h
      rw [splitLines_of_ne_nil (List.append_ne_nil_of_left_ne_nil hne _), untilMarker?]
      by_cases hbreak : '\n' ∈ cs
      · obtain ⟨hfirst, hrest⟩ := firstLine_append hbreak more
        rw [hfirst, hrest]
        split at h
        · rename_i hmarker
          rw [if_pos hmarker]
          simp only [Option.some.injEq, Prod.mk.injEq] at h
          obtain ⟨rfl, rfl, rfl⟩ := h
          simp [Lexeme.splitLines_flatten]
        · rename_i hmarker
          rw [if_neg hmarker]
          obtain ⟨⟨tail, found⟩, hfound, heq⟩ := Option.map_eq_some_iff.1 h
          simp only [Prod.mk.injEq] at heq
          obtain ⟨rfl, rfl⟩ := heq
          rw [ih _ (length_afterLine_lt hne) hfound rfl]
          rfl
      · -- On the last line nothing but a carriage return is left over.
        obtain ⟨hfirst, hrest⟩ := firstLine_of_not_mem hbreak
        rw [hfirst, hrest] at h
        split at h
        · simp only [Option.some.injEq, Prod.mk.injEq] at h
          obtain ⟨-, -, rfl⟩ := h
          obtain ⟨c, hc, hseparator⟩ := hafter
          rw [splitLines, List.flatten_nil, List.append_nil] at hc
          rcases mem_drop_marker hc with rfl | rfl
          · exact absurd (List.mem_of_mem_drop hc) hbreak
          · exact absurd hseparator (by decide)
        · cases h

theorem takeLineBreak_append (h : (Lexeme.takeLineBreak cs).1 ≠ []) (more : List Char) :
    Lexeme.takeLineBreak (cs ++ more) =
      ((Lexeme.takeLineBreak cs).1, (Lexeme.takeLineBreak cs).2 ++ more) := by
  unfold Lexeme.takeLineBreak at h
  split at h
  · rfl
  · rfl
  · exact absurd rfl h

theorem heredoc?_blank_none (h : Lexeme.heredoc? cs = none) :
    Lexeme.heredoc? (cs ++ ' ' :: s) = none := by
  have hdash := takeOne_blank s (p := (· == '-')) rfl cs
  simp only [Lexeme.heredoc?] at h ⊢
  rw [hdash, head?_any_blank s (p := isIdentStart) (by decide)]
  split at h
  · split at h <;> cases h
  · rename_i hstart
    rw [if_neg hstart]

theorem heredoc_blank {l : Lexeme} (h : Lexeme.HeredocRule cs l)
    (hrest : ∃ c ∈ l.rest, isSeparator c = false) :
    Lexeme.HeredocRule (cs ++ ' ' :: s) (l.before s) := by
  have hends : WordEnds (' ' :: s) := wordEnds_cons (by decide)
  cases h with
  | @marked dash name lineBreak lines content marker after hdash hname hline hbreak hmarker =>
      have hname' : (name ++ ' ' :: s).takeWhile isIdentChar = name.takeWhile isIdentChar :=
        takeWhile_append hends
      have hline' : Lexeme.takeLineBreak ((name ++ ' ' :: s).dropWhile isIdentChar) =
          (lineBreak, lines ++ ' ' :: s) := by
        rw [dropWhile_append hends, takeLineBreak_append (by rwa [hline]), hline]
      have hmarker' := untilMarker?_append hmarker hrest (' ' :: s)
      rw [← hname'] at hmarker'
      have hrule := Lexeme.HeredocRule.marked
        (by rw [takeOne_blank s (p := (· == '-')) rfl cs, hdash])
        (by rwa [head?_any_blank s (p := isIdentStart) (by decide)]) hline' hbreak hmarker'
      rwa [hname'] at hrule

/-! ## Symbols -/

theorem isPrefixOf_blank {front : List Char} (h : ' ' ∉ front) (cs : List Char) :
    front.isPrefixOf (cs ++ ' ' :: s) = front.isPrefixOf cs := by
  induction front generalizing cs with
  | nil => rfl
  | cons d front ih =>
      obtain ⟨hd, hfront⟩ := not_or.1 (mt List.mem_cons.2 h)
      cases cs with
      | nil => simp [List.isPrefixOf, Ne.symm hd]
      | cons c cs => simp only [List.cons_append, List.isPrefixOf, ih hfront]

theorem read?_blank (cs : List Char) : Symbol.read? (cs ++ ' ' :: s) =
    (Symbol.read? cs).map fun (t, rest) => (t, rest ++ ' ' :: s) := by
  have hblank : ∀ t : Symbol, ' ' ∉ t.chars := by
    intro t
    cases t <;> decide
  have hbegins : (fun t : Symbol => t.chars.isPrefixOf (cs ++ ' ' :: s)) =
      fun t => t.chars.isPrefixOf cs := funext fun t => isPrefixOf_blank s (hblank t) cs
  rw [Symbol.read?, Symbol.read?, hbegins]
  cases hfound : Symbol.all.find? fun t => t.chars.isPrefixOf cs with
  | none => rfl
  | some t =>
      have ht : t.chars.isPrefixOf cs = true := by simpa using List.find?_some hfound
      obtain ⟨rest, rfl⟩ := List.isPrefixOf_iff_prefix.1 ht
      rw [Option.map_some, Option.map_some, Option.map_some, List.append_assoc, List.drop_left,
        List.drop_left]

theorem punctuates_blank (h : Lexeme.Punctuates c cs) : Lexeme.Punctuates c (cs ++ ' ' :: s) := by
  have hhead {d : Char} (hd : d ≠ ' ') (hne : cs.head? ≠ some d) :
      (cs ++ ' ' :: s).head? ≠ some d := by
    cases cs with
    | nil => simpa using Ne.symm hd
    | cons e cs => exact hne
  refine ⟨h.notNewline, h.notIdent, h.notDigit, h.notHash, h.notQuote, fun hc => ?_, ?_⟩
  · exact ⟨hhead (by decide) (h.notComment hc).1, hhead (by decide) (h.notComment hc).2⟩
  · intro rest hc hcs
    cases cs with
    | nil => exact absurd (List.cons.inj hcs).1 (by decide)
    | cons d cs =>
        obtain ⟨rfl, rfl⟩ := List.cons.inj hcs
        exact heredoc?_blank_none s (h.notHeredoc cs hc rfl)

/-! ## Any token -/

/-- What is read reaches to the end of its line. -/
def Token.takesLine : Token → Bool
  | .lineComment _ | .heredoc _ => true
  | _ => false

/-- A token is read the same before a blank, if it does not reach to the end of the text. -/
theorem read_blank {l : Lexeme} (h : Lexeme.read c cs = .ok l)
    (hrest : l.token.takesLine = true → ∃ c ∈ l.rest, isSeparator c = false) :
    Lexeme.read c (cs ++ ' ' :: s) = .ok (l.before s) := by
  -- A line comment with text behind it has come to the end of its line before the blank.
  have hcomment {text : List Char} (hl : l = Lexeme.lineComment text) :
      Lexeme.lineComment (text ++ ' ' :: s) = l.before s := by
    subst hl
    obtain ⟨c, hc, -⟩ := hrest rfl
    exact lineComment_blank s (List.ne_nil_of_mem hc)
  rw [Lexeme.read_ok_iff] at h ⊢
  cases h with
  | newline => exact .newline
  | ident hident =>
      rw [← ident_blank, List.cons_append]
      exact .ident hident
  | number hdigit =>
      rw [← number_blank, List.cons_append]
      exact .number hdigit
  | hashComment =>
      rw [← hcomment rfl]
      exact .hashComment
  | slashComment =>
      rw [← hcomment rfl]
      exact .slashComment
  | blockComment hend => exact .blockComment (throughCommentEnd?_append hend _)
  | quoted hend => exact .quoted (Template.closing?_append hend _)
  | heredoc hheredoc =>
      have htakes : l.token.takesLine = true := by
        cases hheredoc with
        | marked => rfl
      exact .heredoc (heredoc_blank s hheredoc (hrest htakes))
  | symbol hplain hread =>
      have hread' := read?_blank s (c :: cs)
      rw [hread, Option.map_some] at hread'
      exact .symbol (punctuates_blank s hplain) hread'

/-! ## All tokens -/

theorem exists_of_tokenizeAt {offset : Nat} {ls : List Located} (h : tokenizeAt offset cs = .ok ls)
    (hls : ls ≠ []) : ∃ c ∈ cs, isSeparator c = false := by
  rw [tokenizeAt_ok_iff] at h
  induction h with
  | nil => exact absurd rfl hls
  | separator _ _ ih =>
      obtain ⟨d, hd, hseparator⟩ := ih hls
      exact ⟨d, List.mem_cons_of_mem _ hd, hseparator⟩
  | lexeme hc => exact ⟨_, List.mem_cons_self, hc⟩

/-- A text that ends neither with a comment nor with a heredoc has the same tokens before a
blank. -/
theorem tokenizeAt_append_blank {offset : Nat} {ls : List Located}
    (h : tokenizeAt offset cs = .ok ls) (hlast : ∀ t ∈ ls.getLast?, t.token.takesLine = false) :
    tokenizeAt offset (cs ++ ' ' :: s) =
      (tokenizeAt (offset + Text.byteLength cs) (' ' :: s)).map (ls ++ ·) := by
  rw [tokenizeAt_ok_iff] at h
  induction h with
  | nil =>
      rw [Text.byteLength, List.nil_append, Nat.add_zero]
      cases tokenizeAt _ (' ' :: s) <;> rfl
  | separator hc _ ih =>
      rw [List.cons_append, tokenizeAt_separator hc, ih hlast, Text.byteLength, Nat.add_assoc]
  | @lexeme offset c cs lexeme tokens hc hread htokens ih =>
      -- A token that takes its line is not the last one, so another comes before the blank.
      have hend : lexeme.token.takesLine = true → ∃ c ∈ lexeme.rest, isSeparator c = false := by
        intro htakes
        refine exists_of_tokenizeAt (tokenizeAt_ok_iff.2 htokens) ?_
        rintro rfl
        have hfalse : lexeme.token.takesLine = false := hlast _ rfl
        rw [hfalse] at htakes
        cases htakes
      have hrest : ∀ t ∈ tokens.getLast?, t.token.takesLine = false := by
        intro t ht
        exact hlast t (by rw [List.getLast?_cons, ht]; rfl)
      have hlength : offset + Text.byteLength (c :: cs) =
          offset + Text.byteLength lexeme.chars + Text.byteLength lexeme.rest := by
        rw [← (Lexeme.read_readFrom hread).eq_append, Text.byteLength_append, ← Nat.add_assoc]
      rw [List.cons_append, tokenizeAt_lexeme hc (read_blank s hread hend), hlength]
      have hread' : tokenizeAt (offset + Text.byteLength (lexeme.before s).chars)
          (lexeme.before s).rest = _ := ih hrest
      rw [hread']
      cases tokenizeAt _ (' ' :: s) <;> rfl

end Hcl
end ProviderMigration
