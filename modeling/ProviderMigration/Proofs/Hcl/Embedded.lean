import ProviderMigration.Proofs.Hcl.Template.Segment
import ProviderMigration.Proofs.Hcl.Token.Place

/-!
# Embedded texts

The expression of an interpolation or directive is cut out of the raw text of its token, and read
as a text of its own at its own offset. It may hold templates again.

* `Located.segments` — the segments of the template in a token;
* `Embedded` — the texts that are read in the course of reading a text;
* `Embedded.standsAt` — each of them stands in the source where its offset says;
* `FaultIn` — the ways in which one text is at fault for an error;
* `FaultIn.within` — the error points into that text.
-/

namespace ProviderMigration
namespace Hcl

open Text (byteLength)
open Template (Segment)

/-- The segments of the template that a token holds. -/
def Located.segments (t : Located) : List Segment :=
  match t.token with
  | .quoted raw => Template.split true (t.span.start + 1) raw
  | .heredoc text => Template.split false (t.span.start + text.openerWidth) text.content
  | _ => []

/-- The texts that are read when the text `whole` is read, which stands at the offset `base`. -/
inductive Embedded (base : Nat) (whole : List Char) : Nat → List Char → Prop
  | whole : Embedded base whole base whole
  | inside {offset place : Nat} {text expr : List Char} {tokens : List Located} {t : Located}
      {segment : Segment} (outer : Embedded base whole offset text)
      (htokens : tokenizeAt offset text = .ok tokens) (ht : t ∈ tokens)
      (hsegment : segment ∈ t.segments) (hplace : segment.embedded? = some (place, expr)) :
      Embedded base whole place expr

section
variable {offset place : Nat} {cs before text expr : List Char} {l : Lexeme} {t : Located}
  {tokens : List Located} {segment : Segment} {e : SyntaxError}

/-! ## Templates in tokens -/

/-- The raw text of a template is what its token has between the opening and the closing. -/
theorem ReadAt.exists_raw (h : ReadAt offset cs before l t) (hsegment : segment ∈ t.segments) :
    ∃ escapes opening raw closing, l.chars = opening ++ (raw ++ closing) ∧
      Bool.toNat escapes ≤ byteLength closing ∧
      segment.StandsIn escapes (t.span.start + byteLength opening) raw := by
  have hspelt := h.spelt
  unfold Lexeme.Spelt at hspelt
  unfold Located.segments at hsegment
  rw [h.token] at hsegment
  split at hsegment
  · rename_i raw htoken
    rw [htoken] at hspelt
    obtain ⟨hchars, -⟩ := hspelt
    exact ⟨true, ['"'], raw, ['"'], hchars, Nat.le_refl 1, Template.standsIn_of_mem_split hsegment⟩
  · rename_i heredoc htoken
    rw [htoken] at hspelt
    obtain ⟨opener, marker, hchars, hwidth⟩ := hspelt
    rw [← hwidth] at hsegment
    exact ⟨false, opener, heredoc.content, marker, hchars, Nat.zero_le _,
      Template.standsIn_of_mem_split hsegment⟩
  · exact absurd hsegment List.not_mem_nil

/-- The expression of a segment stands in its token. -/
theorem ReadAt.exists_embedded (h : ReadAt offset cs before l t) (hsegment : segment ∈ t.segments)
    (hplace : segment.embedded? = some (place, expr)) :
    ∃ front back, l.chars = front ++ (expr ++ back) ∧ place = t.span.start + byteLength front := by
  obtain ⟨escapes, opening, raw, closing, hchars, -, hstands⟩ := h.exists_raw hsegment
  obtain ⟨front, back, rfl, rfl⟩ := hstands.embedded hplace
  refine ⟨opening ++ front, back ++ closing, ?_, ?_⟩
  · rw [hchars]
    simp only [List.append_assoc]
  · rw [Text.byteLength_append, Nat.add_assoc]

/-- The expression takes fewer bytes than its token: the token begins before it. -/
theorem ReadAt.embedded_within (h : ReadAt offset cs before l t) (hsegment : segment ∈ t.segments)
    (hplace : segment.embedded? = some (place, expr)) :
    t.span.start < place ∧ place + byteLength expr ≤ t.span.stop := by
  refine ⟨?_, ?_⟩
  · unfold Located.segments at hsegment
    split at hsegment
    · exact Nat.lt_trans (Nat.lt_succ_self _) (Template.lt_place_of_mem_split hsegment hplace)
    · exact Nat.lt_of_le_of_lt (Nat.le_add_right _ _)
        (Template.lt_place_of_mem_split hsegment hplace)
    · exact absurd hsegment List.not_mem_nil
  · obtain ⟨front, back, hchars, rfl⟩ := h.exists_embedded hsegment hplace
    have hwidth : t.span.stop = t.span.start + byteLength l.chars := by rw [h.span]
    rw [hchars, Text.byteLength_append, Text.byteLength_append] at hwidth
    omega

/-- A fault in a template is pointed at inside its token. -/
theorem ReadAt.malformed_within (h : ReadAt offset cs before l t)
    (hsegment : .malformed e ∈ t.segments) :
    t.span.start ≤ e.span.start ∧ e.span.start ≤ e.span.stop ∧ e.span.stop ≤ t.span.stop := by
  obtain ⟨escapes, opening, raw, closing, hchars, hclosing, hstands⟩ := h.exists_raw hsegment
  obtain ⟨hstart, hordered, hstop⟩ := hstands.malformed
  have hwidth : t.span.stop = t.span.start + byteLength l.chars := by rw [h.span]
  rw [hchars, Text.byteLength_append, Text.byteLength_append] at hwidth
  omega

theorem embedded_within (htokens : tokenizeAt offset cs = .ok tokens) (ht : t ∈ tokens)
    (hsegment : segment ∈ t.segments) (hplace : segment.embedded? = some (place, expr)) :
    t.span.start < place ∧ place + byteLength expr ≤ t.span.stop := by
  obtain ⟨before, l, hread⟩ := exists_readAt htokens t ht
  exact hread.embedded_within hsegment hplace

/-! ## Places -/

/-- Every text that is read stands in the source where its offset says. -/
theorem Embedded.standsAt {source : String} {base : Nat} {whole : List Char}
    (h : Embedded base whole offset text) (hwhole : StandsAt source base whole) :
    StandsAt source offset text := by
  induction h with
  | whole => exact hwhole
  | inside outer htokens ht hsegment hplace ih =>
      obtain ⟨before, l, hread⟩ := exists_readAt htokens _ ht
      obtain ⟨front, back, hchars, rfl⟩ := hread.exists_embedded hsegment hplace
      exact (hread.standsAt ih).part hchars

/-! ## Faults -/

/-- The text is at fault for the error: it cannot be cut into tokens, one of its tokens or its end
does not belong where it is, or the template in one of its tokens is malformed. -/
inductive FaultIn (offset : Nat) (text : List Char) (e : SyntaxError) : Prop
  | lexical (hfailure : tokenizeAt offset text = .error e)
  | token {tokens : List Located} {t : Located} (htokens : tokenizeAt offset text = .ok tokens)
      (ht : t ∈ tokens) (hspan : e.span = t.span) (hstage : e.cause.stage = .grammar)
  | ending (hspan : e.span = ⟨offset + byteLength text, offset + byteLength text⟩)
      (hstage : e.cause.stage = .grammar)
  | segment {tokens : List Located} {t : Located} (htokens : tokenizeAt offset text = .ok tokens)
      (ht : t ∈ tokens) (hsegment : .malformed e ∈ t.segments)

namespace FaultIn

/-- The error points into the text that is at fault for it. -/
theorem within (h : FaultIn offset text e) :
    offset ≤ e.span.start ∧ e.span.start ≤ e.span.stop ∧
      e.span.stop ≤ offset + byteLength text := by
  cases h with
  | lexical hfailure =>
      obtain ⟨front, shown, back, rfl, -, hspan⟩ := exists_failure hfailure
      rw [hspan, Text.byteLength_append, Text.byteLength_append]
      dsimp only
      omega
  | token htokens ht hspan _ =>
      obtain ⟨before, l, hread⟩ := exists_readAt htokens _ ht
      rw [hspan]
      exact ⟨hread.start_le, Nat.le_of_lt hread.start_lt_stop, hread.stop_le⟩
  | ending hspan _ =>
      rw [hspan]
      exact ⟨Nat.le_add_right _ _, Nat.le_refl _, Nat.le_refl _⟩
  | segment htokens ht hsegment =>
      obtain ⟨before, l, hread⟩ := exists_readAt htokens _ ht
      obtain ⟨hstart, hordered, hstop⟩ := hread.malformed_within hsegment
      exact ⟨Nat.le_trans hread.start_le hstart, hordered, Nat.le_trans hstop hread.stop_le⟩

theorem stage_of_segment {tokens : List Located} (htokens : tokenizeAt offset text = .ok tokens)
    (ht : t ∈ tokens) (hsegment : .malformed e ∈ t.segments) : e.cause.stage = .template := by
  obtain ⟨before, l, hread⟩ := exists_readAt htokens _ ht
  obtain ⟨_, _, _, _, _, _, _, _, _, _, hcause⟩ := hread.exists_raw hsegment
  rcases hcause with ⟨hcause, -⟩ | ⟨hcause, -⟩
  · rw [hcause]
    rfl
  · rw [hcause]
    rfl

/-- No text is at fault for a budget that ran out. -/
theorem cause_ne_exhausted (h : FaultIn offset text e) : e.cause ≠ .exhausted := by
  intro hcause
  have hstage : e.cause.stage = .budget := by
    rw [hcause]
    rfl
  cases h with
  | lexical hfailure =>
      obtain ⟨_, _, _, _, hlexer, _⟩ := exists_failure hfailure
      cases hlexer.symm.trans hstage
  | token _ _ _ hgrammar => cases hgrammar.symm.trans hstage
  | ending _ hgrammar => cases hgrammar.symm.trans hstage
  | segment htokens ht hsegment =>
      cases (stage_of_segment htokens ht hsegment).symm.trans hstage

end FaultIn

end

end Hcl
end ProviderMigration
