import ProviderMigration.Proofs.Hcl.Parser.Fault
import ProviderMigration.Proofs.Hcl.Template.Sequence

/-!
# Template boundaries

The lexer finds the closing quote of a quoted token and the splitter cuts the text before it into
segments. Both find the same sequences, and the expressions of these stand in the source.

* `ReadAt.exists_scan` — what the lexer passed over in a quoted token;
* `cause_of_quoted` — in a quoted token the splitter finds every closing brace;
* `UnclosedInHeredoc` — the sequences that are left open are those of heredocs in expressions;
* `boundaries_agree` — the boundaries of all quoted tokens, also of those in embedded texts.
-/

namespace ProviderMigration
namespace Hcl

open Text (byteLength)
open Template

section
variable {offset : Nat} {cs text before raw : List Char} {l : Lexeme} {t : Located}
  {tokens : List Located} {e : SyntaxError}

/-! ## Quoted tokens -/

theorem ReadAt.chars_of_quoted (h : ReadAt offset cs before l t) (hquoted : t.token = .quoted raw) :
    l.chars = '"' :: (raw ++ ['"']) ∧ quotedText? (raw ++ '"' :: l.rest) = some (raw, l.rest) := by
  have hspelt := h.spelt
  rw [Lexeme.Spelt, ← h.token, hquoted] at hspelt
  exact hspelt

/-- The lexer has passed over sequences on its way to the closing quote. -/
theorem ReadAt.exists_scan (h : ReadAt offset cs before l t) (hquoted : t.token = .quoted raw) :
    ∃ passed,
      scan? (t.span.start + 1) (raw ++ '"' :: l.rest) = some ⟨passed, raw, l.rest⟩ := by
  have hfound := (h.chars_of_quoted hquoted).2
  rw [← map_text_scan? (t.span.start + 1)] at hfound
  obtain ⟨⟨passed, raw', after⟩, hscan, htext⟩ := Option.map_eq_some_iff.1 hfound
  obtain ⟨rfl, rfl⟩ := Prod.mk.inj htext
  exact ⟨passed, hscan⟩

theorem segments_of_quoted (hquoted : t.token = .quoted raw) :
    t.segments = split true (t.span.start + 1) raw := by
  rw [Located.segments, hquoted]

/-- The splitter finds the closing brace of every sequence in a quoted token. -/
theorem cause_of_quoted (htokens : tokenizeAt offset text = .ok tokens) (ht : t ∈ tokens)
    (hquoted : t.token = .quoted raw) (he : .malformed e ∈ t.segments) :
    e.cause = .invalidEscape := by
  obtain ⟨before, l, hread⟩ := exists_readAt htokens t ht
  obtain ⟨passed, hscan⟩ := hread.exists_scan hquoted
  rw [segments_of_quoted hquoted] at he
  rcases (cut_of_scan? hscan).exists_of_mem he with ⟨_, hliteral⟩ | ⟨q, hq, hsegment⟩ | hinvalid
  · cases hliteral
  · -- A sequence is never split into a malformed segment.
    have hcut := cutAs_segment (standsIn_of_scan? hscan q hq).1
    rw [← hsegment] at hcut
    cases hcut
  · obtain ⟨_, hsegment, hcause⟩ := hinvalid
    obtain rfl := Segment.malformed.inj hsegment
    exact hcause

/-! ## Sequences that are left open -/

/-- A heredoc in the text, or in a text embedded in it, has a sequence without a closing brace. -/
def UnclosedInHeredoc (base : Nat) (whole : List Char) (e : SyntaxError) : Prop :=
  ∃ offset text, Embedded base whole offset text ∧
    ∃ tokens, tokenizeAt offset text = .ok tokens ∧
      ∃ t ∈ tokens, (∃ content, t.token = .heredoc content) ∧ .malformed e ∈ t.segments

theorem unclosedInHeredoc_of_blames {base : Nat} {whole : List Char} (h : Blames base whole e)
    (hcause : e.cause = .unterminatedSequence) : UnclosedInHeredoc base whole e := by
  have hstage : e.cause.stage = .template := by
    rw [hcause]
    rfl
  obtain ⟨offset, text, hembedded, hfault⟩ := h
  cases hfault with
  | lexical hfailure =>
      obtain ⟨_, _, _, _, hlexer, _⟩ := exists_failure hfailure
      cases hlexer.symm.trans hstage
  | token _ _ _ hgrammar => cases hgrammar.symm.trans hstage
  | ending _ hgrammar => cases hgrammar.symm.trans hstage
  | segment htokens ht hsegment =>
      rename_i tokens t
      refine ⟨offset, text, hembedded, tokens, htokens, t, ht, ?_, hsegment⟩
      cases htoken : t.token with
      | heredoc content => exact ⟨content, rfl⟩
      | quoted raw => cases hcause.symm.trans (cause_of_quoted htokens ht htoken hsegment)
      | _ =>
          rw [Located.segments, htoken] at hsegment
          exact absurd hsegment List.not_mem_nil

end

/-! ## Agreement -/

/-- The lexer and the splitter agree on a quoted token that was read in a text. -/
structure BoundariesAgree (source : String) (text : List Char) (t : Located) (raw : List Char)
    (passed : List Sequence) : Prop where
  /-- Passing over the sequences, the lexer finds the closing quote behind the raw text. -/
  scanned : ∃ before after, text = before ++ '"' :: (raw ++ '"' :: after) ∧
    scan? (t.span.start + 1) (raw ++ '"' :: after) = some ⟨passed, raw, after⟩
  /-- The splitter cuts the raw text along them. -/
  cut : Cut (t.span.start + 1) raw passed (split true (t.span.start + 1) raw)
  /-- Only an invalid escape keeps it from cutting along all of them. -/
  complete : (∀ e, .malformed e ∉ split true (t.span.start + 1) raw) →
    sequences (split true (t.span.start + 1) raw) = passed.map Sequence.segment
  closed : ∀ e, .malformed e ∈ split true (t.span.start + 1) raw → e.cause = .invalidEscape
  stands : ∀ q ∈ passed, StandsAt source q.offset q.chars ∧ q.CutAs q.segment
  /-- What is read as the expression of a sequence is in the source where its offset says. -/
  embedded : ∀ q ∈ passed, ∀ place expr, q.segment.embedded? = some (place, expr) →
    Span.slice? ⟨place, place + byteLength expr⟩ source = some (String.ofList expr)
  /-- If an open sequence is reported, it is in a heredoc in one of these expressions. -/
  nested : ∀ fuel r e, Parser.fuelFor raw.length ≤ fuel →
    Parser.template fuel r (split true (t.span.start + 1) raw) = .error e →
    e.cause = .unterminatedSequence →
    ∃ q ∈ passed, ∃ place expr, q.segment.embedded? = some (place, expr) ∧
      UnclosedInHeredoc place expr e

theorem exists_boundariesAgree {source : String} {offset : Nat} {text raw : List Char}
    {tokens : List Located} {t : Located} (htext : StandsAt source offset text)
    (htokens : tokenizeAt offset text = .ok tokens) (ht : t ∈ tokens)
    (hquoted : t.token = .quoted raw) : ∃ passed, BoundariesAgree source text t raw passed := by
  obtain ⟨before, l, hread⟩ := exists_readAt htokens t ht
  have hchars := (hread.chars_of_quoted hquoted).1
  obtain ⟨passed, hscan⟩ := hread.exists_scan hquoted
  have hcut := cut_of_scan? hscan
  have hraw : StandsAt source (t.span.start + byteLength ['"']) raw :=
    (hread.standsAt htext).part hchars
  have hstands (q : Sequence) (hq : q ∈ passed) :
      StandsAt source q.offset q.chars ∧ q.CutAs q.segment := by
    obtain ⟨hmarker, front, back, hfront, hoffset⟩ := standsIn_of_scan? hscan q hq
    rw [hoffset]
    exact ⟨hraw.part hfront, cutAs_segment hmarker⟩
  have hclosed (e : SyntaxError) (he : .malformed e ∈ split true (t.span.start + 1) raw) :
      e.cause = .invalidEscape :=
    cause_of_quoted htokens ht hquoted ((segments_of_quoted hquoted).symm ▸ he)
  refine ⟨passed, ⟨before, l.rest, ?_, hscan⟩, hcut, hcut.sequences_eq, hclosed, hstands, ?_, ?_⟩
  · rw [hread.text, hchars]
    simp only [List.cons_append, List.append_assoc, List.nil_append]
  · intro q hq place expr hplace
    exact ((hstands q hq).2.standsAt (hstands q hq).1 hplace).slice?_eq
  · intro fuel r e hfuel he hcause
    -- The budget is enough, so an error is the fault of a segment or of an expression in one.
    have hbudget : Template.fuel (split true (t.span.start + 1) raw) ≤ fuel := by
      refine Nat.le_trans (fuel_split_le ..) (Nat.le_trans ?_ hfuel)
      exact Nat.mul_le_mul_left 8 (Nat.le_succ _)
    rcases Parser.template_blames hbudget r e he with hmem | ⟨segment, hmem, place, expr, hplace, hblames⟩
    · cases hcause.symm.trans (hclosed e hmem)
    · have hunclosed := unclosedInHeredoc_of_blames hblames hcause
      rcases hcut.exists_of_mem hmem with ⟨_, rfl⟩ | ⟨q, hq, rfl⟩ | ⟨_, rfl, _⟩
      · cases hplace
      · exact ⟨q, hq, place, expr, hplace, hunclosed⟩
      · cases hplace

/-- The scan with its sequences is the scanner of the lexer. Whatever text is read in the course of
reading a source, on each of its quoted tokens the lexer and the splitter agree. -/
theorem boundaries_agree (source : String) :
    (∀ offset cs, (scan? offset cs).map Scan.text = quotedText? cs) ∧
    ∀ offset text tokens, Embedded 0 source.toList offset text →
      tokenizeAt offset text = .ok tokens → ∀ t ∈ tokens, ∀ raw, t.token = .quoted raw →
      ∃ passed, BoundariesAgree source text t raw passed := by
  refine ⟨map_text_scan?, fun offset text tokens hembedded htokens t ht raw hquoted => ?_⟩
  exact exists_boundariesAgree (hembedded.standsAt (.whole source)) htokens ht hquoted

/-- Escapes of two and six characters, a doubled opener, a brace in a nested string, strip markers
and a directive with and one without an expression. -/
theorem boundaries_agree_mixed :
    let source := "\"é\\u0022$$\x7b $\x7b~ f(\"\x7d\") ~\x7d%\x7b~ if a ~\x7d\\\"%\x7b endif \x7d\""
    ∃ raw passed, tokenizeAt 0 source.toList = .ok [⟨.quoted raw, ⟨0, 50⟩⟩] ∧
      BoundariesAgree source source.toList ⟨.quoted raw, ⟨0, 50⟩⟩ raw passed ∧
      passed.map Sequence.segment =
        [.interpolation true true 16 " f(\"\x7d\") ".toList,
          .directive "%\x7b~ if ".toList 33 ['a'] " ~\x7d".toList,
          .verbatim "%\x7b endif \x7d".toList] := by
  intro source
  let raw := "é\\u0022$$\x7b $\x7b~ f(\"\x7d\") ~\x7d%\x7b~ if a ~\x7d\\\"%\x7b endif \x7d".toList
  have htokens : tokenizeAt 0 source.toList = .ok [⟨.quoted raw, ⟨0, 50⟩⟩] := by decide +kernel
  obtain ⟨passed, hagree⟩ := (boundaries_agree source).2 0 source.toList _ .whole htokens
    ⟨.quoted raw, ⟨0, 50⟩⟩ List.mem_cons_self raw rfl
  have hsplit : split true 1 raw = [.literal "é\"$\x7b ".toList,
      .interpolation true true 16 " f(\"\x7d\") ".toList,
      .directive "%\x7b~ if ".toList 33 ['a'] " ~\x7d".toList, .literal ['"'],
      .verbatim "%\x7b endif \x7d".toList] := by
    decide +kernel
  have hsequences := hagree.complete (by simp [hsplit])
  exact ⟨raw, passed, htokens, hagree, hsequences.symm.trans (congrArg sequences hsplit)⟩

/-! ## Where they differ -/

/-- The splitter finds all the sequences, reads everything between the strip markers of each as its
expression, and no open sequence is reported. -/
structure BoundariesExact (offset : Nat) (raw : List Char) (passed : List Sequence) : Prop where
  sequences : sequences (split true offset raw) = passed.map Sequence.segment
  expressions : ∀ q ∈ passed, ∀ place expr, q.segment.embedded? = some (place, expr) →
    expr = (stripMarkers q.inside).2.1
  closed : ∀ fuel r e, Parser.fuelFor raw.length ≤ fuel →
    Parser.template fuel r (split true offset raw) = .error e → e.cause ≠ .unterminatedSequence

/-- The boundaries of all quoted tokens of a source are exact. -/
def AllBoundariesExact (source : String) : Prop :=
  ∀ tokens, tokenizeAt 0 source.toList = .ok tokens → ∀ t ∈ tokens, ∀ raw passed after,
    t.token = .quoted raw →
    scan? (t.span.start + 1) (raw ++ '"' :: after) = some ⟨passed, raw, after⟩ →
    BoundariesExact (t.span.start + 1) raw passed

/-- The expression of a directive stands behind its keyword, an invalid escape hides what is behind
it, and the lexer takes the content of a heredoc in an interpolation for any other text. -/
theorem not_allBoundariesExact :
    ¬ AllBoundariesExact "\"%\x7b if a \x7db\"" ∧ ¬ AllBoundariesExact "\"\\q$\x7ba\x7d\"" ∧
      ¬ AllBoundariesExact "\"$\x7b<<E\n$\x7b\nE\n\x7d\x7d\"" := by
  refine ⟨fun h => ?_, fun h => ?_, fun h => ?_⟩
  · let q : Sequence := ⟨'%', 1, " if a ".toList⟩
    have hexact := h [⟨.quoted (q.chars ++ ['b']), ⟨0, 12⟩⟩] (by decide +kernel) _
      List.mem_cons_self _ [q] [] rfl (by decide +kernel)
    have hexpr := hexact.expressions q List.mem_cons_self 7 ['a'] (by decide +kernel)
    exact absurd hexpr (by decide +kernel)
  · let q : Sequence := ⟨'$', 3, ['a']⟩
    have hexact := h [⟨.quoted ('\\' :: 'q' :: q.chars), ⟨0, 8⟩⟩] (by decide +kernel) _
      List.mem_cons_self _ [q] [] rfl (by decide +kernel)
    exact absurd hexact.sequences (by decide +kernel)
  · let q : Sequence := ⟨'$', 1, "<<E\n$\x7b\nE\n\x7d".toList⟩
    have hexact := h [⟨.quoted q.chars, ⟨0, 15⟩⟩] (by decide +kernel) _
      List.mem_cons_self _ [q] [] rfl (by decide +kernel)
    have htemplate : (Parser.template (Parser.fuelFor q.chars.length) ⟨true, 15⟩
        (split true 1 q.chars)).map (fun _ => ()) =
          .error ⟨.unterminatedSequence, ⟨7, 10⟩⟩ := by
      decide +kernel
    exact hexact.closed _ _ _ (Nat.le_refl _) (map_eq_error.1 htemplate) rfl

end Hcl
end ProviderMigration
