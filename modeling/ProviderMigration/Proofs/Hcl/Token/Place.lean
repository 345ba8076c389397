import Mathlib.Data.List.Infix
import ProviderMigration.Proofs.Hcl.Span
import ProviderMigration.Proofs.Hcl.Token.Lexer

/-!
# Where tokens stand

The tokens of a text are read one after the other, each from where its span says.

* `ReadAt` — a token, the lexeme that it is and the text before it;
* `exists_readAt` — every token of a text was read somewhere in it;
* `InOrder`, `inOrder_of_tokenizeAt` — the tokens are not empty, and none begins before the one
  before it has ended;
* `exists_failure` — where a text cannot be cut into tokens.
-/

namespace ProviderMigration
namespace Hcl

open Text (byteLength)

/-- The token was read behind the first part of a text that starts at an offset. -/
structure ReadAt (offset : Nat) (cs before : List Char) (l : Lexeme) (t : Located) : Prop where
  text : cs = before ++ (l.chars ++ l.rest)
  token : t.token = l.token
  span : t.span = ⟨offset + byteLength before, offset + byteLength before + byteLength l.chars⟩
  /-- The lexeme is what is read there. -/
  read : ∃ c rest, l.chars ++ l.rest = c :: rest ∧ Lexeme.read c rest = .ok l

/-- The tokens are not empty, and they follow one another. -/
structure InOrder (tokens : List Located) : Prop where
  nonempty : ∀ t ∈ tokens, t.span.start < t.span.stop
  apart : tokens.Pairwise fun t u => t.span.stop ≤ u.span.start

section
variable {offset : Nat} {cs before front : List Char} {l : Lexeme} {t : Located}
  {tokens : List Located}

namespace ReadAt

theorem readFrom (h : ReadAt offset cs before l t) : l.ReadFrom (l.chars ++ l.rest) := by
  obtain ⟨c, rest, hchars, hread⟩ := h.read
  exact hchars ▸ Lexeme.read_readFrom hread

theorem start_lt_stop (h : ReadAt offset cs before l t) : t.span.start < t.span.stop := by
  rw [h.span]
  exact Nat.lt_add_of_pos_right (Text.byteLength_pos h.readFrom.chars_ne_nil)

theorem start_le (h : ReadAt offset cs before l t) : offset ≤ t.span.start := by
  rw [h.span]
  exact Nat.le_add_right _ _

theorem stop_le (h : ReadAt offset cs before l t) : t.span.stop ≤ offset + byteLength cs := by
  rw [h.span, h.text, Text.byteLength_append, Text.byteLength_append]
  dsimp only
  omega

/-- A token behind more text. -/
theorem behind (h : ReadAt (offset + byteLength front) cs before l t) :
    ReadAt offset (front ++ cs) (front ++ before) l t where
  text := by rw [h.text, List.append_assoc]
  token := h.token
  span := by rw [h.span, Text.byteLength_append, Nat.add_assoc]
  read := h.read

/-- The characters of the token stand in the source if the text does. -/
theorem standsAt {source : String} (h : ReadAt offset cs before l t)
    (hcs : StandsAt source offset cs) : StandsAt source t.span.start l.chars := by
  rw [h.span]
  exact hcs.part h.text

end ReadAt

theorem exists_readAt (h : tokenizeAt offset cs = .ok tokens) :
    ∀ t ∈ tokens, ∃ before l, ReadAt offset cs before l t := by
  rw [tokenizeAt_ok_iff] at h
  induction h with
  | nil => exact fun t ht => absurd ht List.not_mem_nil
  | @separator offset c _ _ _ _ ih =>
      intro t ht
      have hfront : offset + c.utf8Size = offset + byteLength [c] := rfl
      rw [hfront] at ih
      obtain ⟨before, l, hread⟩ := ih t ht
      exact ⟨c :: before, l, hread.behind⟩
  | @lexeme offset c cs lexeme _ _ hread _ ih =>
      have hchars := (Lexeme.read_readFrom hread).eq_append
      intro t ht
      rcases List.mem_cons.1 ht with rfl | ht
      · exact ⟨[], lexeme, hchars.symm, rfl, rfl, c, cs, hchars, hread⟩
      · obtain ⟨before, l, hlater⟩ := ih t ht
        exact ⟨lexeme.chars ++ before, l, hchars ▸ hlater.behind⟩

/-- No token begins before the one before it has ended. -/
theorem apart_of_tokenizeAt (h : tokenizeAt offset cs = .ok tokens) :
    tokens.Pairwise fun t u => t.span.stop ≤ u.span.start := by
  rw [tokenizeAt_ok_iff] at h
  induction h with
  | nil => exact .nil
  | separator _ _ ih => exact ih
  | lexeme _ _ hrest ih =>
      refine List.pairwise_cons.2 ⟨fun u hu => ?_, ih⟩
      obtain ⟨before, l, hlater⟩ := exists_readAt (tokenizeAt_ok_iff.2 hrest) u hu
      exact hlater.start_le

theorem inOrder_of_tokenizeAt (h : tokenizeAt offset cs = .ok tokens) : InOrder tokens where
  nonempty t ht := by
    obtain ⟨before, l, hread⟩ := exists_readAt h t ht
    exact hread.start_lt_stop
  apart := apart_of_tokenizeAt h

namespace InOrder

theorem of_part {part : List Located} (h : InOrder tokens) (hpart : part <:+: tokens) :
    InOrder part :=
  ⟨fun t ht => h.nonempty t (hpart.subset ht), h.apart.sublist hpart.sublist⟩

theorem start_lt {u : Located} {rest : List Located} (h : InOrder (t :: rest)) (hu : u ∈ rest) :
    t.span.start < u.span.start :=
  Nat.lt_of_lt_of_le (h.nonempty t (.head _)) ((List.pairwise_cons.1 h.apart).1 u hu)

end InOrder

end

/-! ## Spelling -/

/-- The characters of a lexeme are what its token says. -/
def Lexeme.Spelt (l : Lexeme) : Prop :=
  match l.token with
  | .ident name => l.chars = name.toList
  | .symbol s => l.chars = s.chars
  | .quoted raw => l.chars = '"' :: (raw ++ ['"']) ∧
      Template.quotedText? (raw ++ '"' :: l.rest) = some (raw, l.rest)
  | .heredoc text => ∃ opener marker, l.chars = opener ++ (text.content ++ marker) ∧
      byteLength opener = text.openerWidth
  | _ => True

namespace Lexeme

variable {c : Char} {cs : List Char} {l : Lexeme}

theorem HeredocRule.spelt (h : HeredocRule cs l) : l.Spelt := by
  cases h with
  | marked => exact ⟨_, _, List.append_assoc .., rfl⟩

theorem spelt_of_read (h : read c cs = .ok l) : l.Spelt := by
  cases read_ok_iff.1 h with
  | ident => exact String.toList_ofList.symm
  | @quoted cs raw after hend =>
      have hcs : cs = raw ++ '"' :: after := Template.closing?_eq_append hend
      exact ⟨rfl, hcs ▸ hend⟩
  | heredoc hheredoc => exact hheredoc.spelt
  | symbol => rfl
  | newline | number | hashComment | slashComment | blockComment => trivial

end Lexeme

theorem ReadAt.spelt {offset : Nat} {cs before : List Char} {l : Lexeme} {t : Located}
    (h : ReadAt offset cs before l t) : l.Spelt := by
  obtain ⟨c, rest, -, hread⟩ := h.read
  exact Lexeme.spelt_of_read hread

/-! ## Failures -/

namespace SyntaxError

/-- What finds an error. -/
inductive Stage where
  | lexer
  /-- The splitting of a template into segments. -/
  | template
  | grammar
  /-- The nesting budget, which is no property of the text. -/
  | budget
deriving DecidableEq

def Cause.stage : Cause → Stage
  | .unterminatedString => .lexer
  | .unterminatedBlockComment => .lexer
  | .unterminatedHeredoc => .lexer
  | .unexpectedCharacter _ => .lexer
  | .unterminatedSequence => .template
  | .invalidEscape => .template
  | .exhausted => .budget
  | _ => .grammar

end SyntaxError

/-- The failure shows characters at the start of the text. -/
structure LexicalFailure.Shows (failure : LexicalFailure) (cs : List Char) : Prop where
  start : failure.chars <+: cs
  stage : failure.cause.stage = .lexer

namespace Lexeme

variable {c : Char} {cs : List Char} {failure : LexicalFailure}

theorem shows_heredoc? (h : heredoc? cs = some (.error failure)) :
    failure.Shows ('<' :: '<' :: cs) := by
  -- With the text behind it the opener makes up the input.
  have hopener := takeOne_append (· == '-') cs
  have hword := List.takeWhile_append_dropWhile (p := isIdentChar) (l := (takeOne (· == '-') cs).2)
  have hline := takeLineBreak_append ((takeOne (· == '-') cs).2.dropWhile isIdentChar)
  simp only [heredoc?, heredocBody] at h
  split at h
  · split at h
    · obtain rfl := Except.error.inj (Option.some.inj h)
      refine ⟨⟨(takeOne (· == '-') cs).2.dropWhile isIdentChar, ?_⟩, rfl⟩
      rw [List.append_assoc, hword, List.cons_append, List.cons_append, hopener]
    · split at h
      · cases h
      · obtain rfl := Except.error.inj (Option.some.inj h)
        refine ⟨⟨(takeLineBreak ((takeOne (· == '-') cs).2.dropWhile isIdentChar)).2, ?_⟩, rfl⟩
        rw [List.append_assoc, hline, List.append_assoc, hword, List.cons_append, List.cons_append,
          hopener]
  · cases h

theorem shows_symbol (h : symbol c cs = .error failure) : failure.Shows (c :: cs) := by
  unfold symbol at h
  split at h
  · cases h
  · obtain rfl := Except.error.inj h
    exact ⟨⟨cs, rfl⟩, rfl⟩

theorem shows_of_read (h : read c cs = .error failure) : failure.Shows (c :: cs) := by
  unfold read at h
  split at h
  · cases h
  split at h
  · cases h
  split at h
  · cases h
  split at h
  · cases h
  · cases h
  · unfold blockComment at h
    split at h
    · cases h
    · obtain rfl := Except.error.inj h
      exact ⟨⟨_, rfl⟩, rfl⟩
  · unfold quoted at h
    split at h
    · cases h
    · obtain rfl := Except.error.inj h
      exact ⟨⟨_, rfl⟩, rfl⟩
  · rename_i cs _ _ _
    cases hfound : heredoc? cs with
    | none => exact shows_symbol (by simpa [hfound] using h)
    | some result => exact shows_heredoc? (hfound.trans (by simpa [hfound] using h))
  · exact shows_symbol h

end Lexeme

/-- A text that cannot be cut into tokens has characters that show why, at the span of the error. -/
theorem exists_failure {offset : Nat} {cs : List Char} {e : SyntaxError}
    (h : tokenizeAt offset cs = .error e) :
    ∃ front shown back, cs = front ++ (shown ++ back) ∧ e.cause.stage = .lexer ∧
      e.span = ⟨offset + byteLength front, offset + byteLength front + byteLength shown⟩ := by
  -- Text that was read before the failure moves its place.
  have behind {offset : Nat} (front : List Char) {cs : List Char}
      (h : ∃ before shown back, cs = before ++ (shown ++ back) ∧ e.cause.stage = .lexer ∧
        e.span = ⟨offset + byteLength front + byteLength before,
          offset + byteLength front + byteLength before + byteLength shown⟩) :
      ∃ before shown back, front ++ cs = before ++ (shown ++ back) ∧ e.cause.stage = .lexer ∧
        e.span = ⟨offset + byteLength before,
          offset + byteLength before + byteLength shown⟩ := by
    obtain ⟨before, shown, back, rfl, hstage, hspan⟩ := h
    refine ⟨front ++ before, shown, back, (List.append_assoc ..).symm, hstage, ?_⟩
    rw [hspan, Text.byteLength_append, Nat.add_assoc offset]
  fun_induction tokenizeAt offset cs with
  | case1 => cases h
  | case2 offset c cs hc ih => exact behind [c] (ih h)
  | case3 offset c cs hc failure hread =>
      obtain rfl := Except.error.inj h
      obtain ⟨⟨back, hback⟩, hstage⟩ := Lexeme.shows_of_read hread
      exact ⟨[], failure.chars, back, hback.symm, hstage, rfl⟩
  | case4 offset c cs hc lexeme hread stop =>
      rename_i ih
      have hchars := (Lexeme.read_readFrom hread).eq_append
      rcases bind_eq_error.1 h with h | ⟨rest, -, h⟩
      · rw [← hchars]
        exact behind lexeme.chars (ih h)
      · cases h

end Hcl
end ProviderMigration
