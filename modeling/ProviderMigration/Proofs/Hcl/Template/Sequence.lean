import ProviderMigration.Proofs.Hcl.Template.Segment

/-!
# The lexer and the template splitter

Two scanners walk over quoted text. The lexer looks for the closing quote and passes over escapes
and sequences on its way; it takes a backslash and one character for an escape. The splitter cuts
the raw text that was found into segments, and reads whole escapes.

* `scan?` — the walk of the lexer with the sequences that it passes over, `map_text_scan?`;
* `Cut`, `cut_of_scan?` — the splitter cuts the raw text along these sequences;
* `Sequence.CutAs`, `cutAs_segment` — what of a sequence becomes the expression of its segment.
-/

namespace ProviderMigration
namespace Hcl
namespace Template

open Text (byteLength)

/-! ## What the lexer passes over -/

/-- A sequence in quoted text: its marker, the offset of the marker, and the text between the
braces. -/
structure Sequence where
  marker : Char
  offset : Nat
  inside : List Char
deriving Repr, DecidableEq

def Sequence.chars (s : Sequence) : List Char :=
  s.marker :: '\x7b' :: (s.inside ++ ['\x7d'])

/-- What is found on the way to the closing quote, and behind it. -/
structure Scan where
  sequences : List Sequence
  raw : List Char
  after : List Char
deriving Repr, DecidableEq

namespace Scan

/-- A scan that goes on behind some characters. -/
def behind (sequences : List Sequence) (chars : List Char) (scan : Scan) : Scan :=
  ⟨sequences ++ scan.sequences, chars ++ scan.raw, scan.after⟩

def text (scan : Scan) : List Char × List Char :=
  (scan.raw, scan.after)

end Scan

/-- The lexer's way to the closing quote of text that is already open, with the sequences that it
passes over. -/
def scan? (offset : Nat) (cs : List Char) : Option Scan :=
  match _doubled : doubledOpener? cs with
  | some (c, rest) => (scan? (offset + 3) rest).map (.behind [] [c, c, '\x7b'])
  | none =>
    match _opened : opener? cs with
    | some (c, rest) =>
      match _braced : bracedText? rest with
      | none => none
      | some (inside, after) =>
        let sequence : Sequence := ⟨c, offset, inside⟩
        (scan? (offset + 3 + byteLength inside) after).map (.behind [sequence] sequence.chars)
    | none =>
      match cs with
      | [] => none
      | '"' :: after => some ⟨[], [], after⟩
      | '\n' :: _ => none
      | '\\' :: d :: rest => (scan? (offset + 1 + d.utf8Size) rest).map (.behind [] ['\\', d])
      | c :: rest => (scan? (offset + c.utf8Size) rest).map (.behind [] [c])
termination_by cs.length
decreasing_by
  · exact doubledOpener?_length _doubled
  · have := opener?_length _opened
    have := length_lt_of_bracedText? _braced
    omega
  · exact Nat.lt_succ_of_lt (Nat.lt_succ_self _)
  · exact Nat.lt_succ_self _

section
variable {offset : Nat} {c d : Char} {cs inside rest after : List Char}

theorem scan?_doubled (hc : c = '$' ∨ c = '%') (offset : Nat) (rest : List Char) :
    scan? offset (c :: c :: '\x7b' :: rest) =
      (scan? (offset + 3) rest).map (.behind [] [c, c, '\x7b']) := by
  rcases hc with rfl | rfl <;> rw [scan?] <;> rfl

/-- The scan goes on behind the closing brace of a sequence. -/
theorem scan?_sequence (hc : c = '$' ∨ c = '%') (offset : Nat) (rest : List Char) :
    scan? offset (c :: '\x7b' :: rest) = (bracedText? rest).bind fun (inside, after) =>
      (scan? (offset + 3 + byteLength inside) after).map
        (.behind [⟨c, offset, inside⟩] (Sequence.chars ⟨c, offset, inside⟩)) := by
  have hdoubled : doubledOpener? (c :: '\x7b' :: rest) = none := by
    rcases hc with rfl | rfl <;> rfl
  have hopener : opener? (c :: '\x7b' :: rest) = some (c, rest) :=
    opener?_eq_some_iff.2 ⟨hc, rfl⟩
  rw [scan?]
  split
  · simp_all
  split
  · rename_i heq
    obtain ⟨rfl, rfl⟩ := Prod.mk.inj (Option.some.inj (hopener.symm.trans heq))
    split
    · rename_i hbraced
      rw [hbraced, Option.bind_none]
    · rename_i hbraced
      rw [hbraced, Option.bind_some]
  · simp_all

theorem scan?_hidden (offset : Nat) (d : Char) (rest : List Char) :
    scan? offset ('\\' :: d :: rest) =
      (scan? (offset + 1 + d.utf8Size) rest).map (.behind [] ['\\', d]) := by
  rw [scan?]
  rfl

theorem scan?_quote (offset : Nat) (after : List Char) :
    scan? offset ('"' :: after) = some ⟨[], [], after⟩ := by
  rw [scan?]
  rfl

theorem scan?_other (offset : Nat) (hquote : c ≠ '"') (hline : c ≠ '\n')
    (hbackslash : ¬ (c = '\\' ∧ ∃ d ds, rest = d :: ds))
    (hdoubled : doubledOpener? (c :: rest) = none) (hopener : opener? (c :: rest) = none) :
    scan? offset (c :: rest) = (scan? (offset + c.utf8Size) rest).map (.behind [] [c]) := by
  rw [scan?]
  split
  · simp_all
  split
  · simp_all
  split
  · simp_all
  · simp_all
  · simp_all
  · simp_all
  · rename_i heq _ _
    obtain ⟨rfl, rfl⟩ := List.cons.inj heq
    rfl

theorem map_text_behind (found : Option Scan) (sequences : List Sequence) (chars : List Char) :
    (found.map (.behind sequences chars)).map Scan.text = prepend chars (found.map Scan.text) := by
  cases found <;> rfl

/-- It is the scanner of the lexer. -/
theorem map_text_scan? (offset : Nat) (cs : List Char) :
    (scan? offset cs).map Scan.text = quotedText? cs := by
  unfold quotedText?
  fun_induction scan? offset cs with
  | case1 offset cs c rest hdoubled ih =>
      obtain ⟨hc, rfl⟩ := doubledOpener?_eq_some_iff.1 hdoubled
      rw [map_text_behind, ih, closing?_doubled hc]
  | case2 offset cs hdoubled c rest hopener hbraced =>
      obtain ⟨hc, rfl⟩ := opener?_eq_some_iff.1 hopener
      rw [closing?_sequence hc, closing?_braces_within, hbraced]
      rfl
  | case3 offset cs hdoubled c rest hopener inside after hbraced sequence ih =>
      obtain ⟨hc, rfl⟩ := opener?_eq_some_iff.1 hopener
      rw [map_text_behind, ih, closing?_sequence hc, closing?_braces_within, hbraced, andThen,
        Option.bind_some]
      exact (prepend_prepend [c, '\x7b'] (inside ++ ['\x7d']) _).symm
  | case4 => rfl
  | case5 => rfl
  | case6 => rfl
  | case7 offset d rest hdoubled hopener ih => rw [map_text_behind, ih, closing?_hidden]
  | case8 offset c rest hdoubled hopener hquote hline hbackslash ih =>
      rw [map_text_behind, ih, closing?_quotes_other]
      · rintro rfl
        exact hquote hdoubled hopener rfl .rfl .rfl
      · rintro rfl
        exact hline hdoubled hopener rfl .rfl .rfl
      · rintro ⟨rfl, d, ds, rfl⟩
        exact hbackslash d ds hdoubled hopener .rfl .rfl rfl rfl
      · rintro ⟨hc, ds, rfl⟩
        rw [doubledOpener?_eq_some_iff.2 ⟨hc, rfl⟩] at hdoubled
        cases hdoubled
      · rintro ⟨hc, ds, rfl⟩
        rw [opener?_eq_some_iff.2 ⟨hc, rfl⟩] at hopener
        cases hopener

/-! ## Where the sequences stand -/

/-- The sequence stands in the raw text, at its offset. -/
def Sequence.StandsIn (offset : Nat) (raw : List Char) (q : Sequence) : Prop :=
  (q.marker = '$' ∨ q.marker = '%') ∧
    ∃ front back, raw = front ++ (q.chars ++ back) ∧ q.offset = offset + byteLength front

theorem Sequence.StandsIn.behind {front raw : List Char} {q : Sequence}
    (h : q.StandsIn (offset + byteLength front) raw) : q.StandsIn offset (front ++ raw) := by
  obtain ⟨hmarker, before, back, rfl, hoffset⟩ := h
  refine ⟨hmarker, front ++ before, back, (List.append_assoc ..).symm, ?_⟩
  rw [hoffset, Text.byteLength_append, Nat.add_assoc]

theorem Sequence.StandsIn.offset_le {raw : List Char} {q : Sequence} (h : q.StandsIn offset raw) :
    offset ≤ q.offset := by
  obtain ⟨-, front, back, -, hoffset⟩ := h
  exact hoffset ▸ Nat.le_add_right _ _

theorem byteLength_doubled (hc : c = '$' ∨ c = '%') : byteLength [c, c, '\x7b'] = 3 := by
  rcases hc with rfl | rfl <;> rfl

theorem standsIn_of_scan? {scan : Scan} (h : scan? offset cs = some scan) :
    ∀ q ∈ scan.sequences, q.StandsIn offset scan.raw := by
  fun_induction scan? offset cs generalizing scan with
  | case1 offset cs c rest hdoubled ih =>
      obtain ⟨later, hlater, rfl⟩ := Option.map_eq_some_iff.1 h
      obtain ⟨hc, -⟩ := doubledOpener?_eq_some_iff.1 hdoubled
      intro q hq
      have hstands := ih hlater q hq
      rw [← byteLength_doubled hc] at hstands
      exact hstands.behind
  | case2 => cases h
  | case3 offset cs hdoubled c rest hopener inside after hbraced sequence =>
      rename_i ih
      obtain ⟨later, hlater, rfl⟩ := Option.map_eq_some_iff.1 h
      obtain ⟨hc, -⟩ := opener?_eq_some_iff.1 hopener
      intro q hq
      rcases List.mem_cons.1 hq with rfl | hq
      · exact ⟨hc, [], later.raw, rfl, rfl⟩
      · have hstands := ih hlater q hq
        rw [Nat.add_assoc, ← byteLength_sequence hc] at hstands
        exact hstands.behind
  | case4 => cases h
  | case5 =>
      obtain rfl := Option.some.inj h
      exact List.forall_mem_nil _
  | case6 => cases h
  | case7 offset d rest hdoubled hopener ih =>
      obtain ⟨later, hlater, rfl⟩ := Option.map_eq_some_iff.1 h
      intro q hq
      have hstands := ih hlater q hq
      rw [Nat.add_assoc] at hstands
      exact hstands.behind
  | case8 offset c rest hdoubled hopener hquote hline hbackslash ih =>
      obtain ⟨later, hlater, rfl⟩ := Option.map_eq_some_iff.1 h
      intro q hq
      exact (ih hlater q hq).behind

/-! ## What the splitter takes for sequences -/

/-- The segment that a sequence is split into. -/
def Sequence.segment (q : Sequence) : Segment :=
  if q.marker = '%' then directive q.offset q.inside else interpolation q.offset q.inside

def Segment.isLiteral : Segment → Bool
  | .literal _ => true
  | _ => false

/-- The segments that are not literal text. -/
def sequences (segments : List Segment) : List Segment :=
  segments.filter fun segment => !segment.isLiteral

theorem sequences_pushLiteral (front : List Char) (segments : List Segment) :
    sequences (pushLiteral front segments) = sequences segments := by
  unfold pushLiteral
  split <;> rfl

theorem sequences_segment (q : Sequence) (segments : List Segment) :
    sequences (q.segment :: segments) = q.segment :: sequences segments := by
  have hliteral : q.segment.isLiteral = false := by
    unfold Sequence.segment
    split
    · unfold directive
      dsimp only
      split <;> rfl
    · rfl
  exact List.filter_cons_of_pos (by rw [hliteral]; rfl)

/-- The splitter cuts the raw text along the sequences that were passed over: each of them becomes
the segment at its place, and no opener stands in the text between them. At an escape that stands
for no character the splitter stops. -/
inductive Cut : Nat → List Char → List Sequence → List Segment → Prop
  | nil (offset : Nat) : Cut offset [] [] []
  | doubled {offset : Nat} {c : Char} {raw : List Char} {passed : List Sequence}
      {segments : List Segment} (hc : c = '$' ∨ c = '%')
      (hrest : Cut (offset + 3) raw passed segments) :
      Cut offset (c :: c :: '\x7b' :: raw) passed (pushLiteral [c, '\x7b'] segments)
  | sequence {offset : Nat} {q : Sequence} {raw : List Char} {passed : List Sequence}
      {segments : List Segment} (hmarker : q.marker = '$' ∨ q.marker = '%')
      (hoffset : q.offset = offset)
      (hclosed : bracedText? (q.inside ++ '\x7d' :: raw) = some (q.inside, raw))
      (hrest : Cut (offset + byteLength q.chars) raw passed segments) :
      Cut offset (q.chars ++ raw) (q :: passed) (q.segment :: segments)
  | escape {offset : Nat} {c : Char} {spelling raw : List Char} {passed : List Sequence}
      {segments : List Segment} (hescape : decodeEscape? (spelling ++ raw) = some (c, raw))
      (hrest : Cut (offset + 1 + byteLength spelling) raw passed segments) :
      Cut offset ('\\' :: (spelling ++ raw)) passed (pushLiteral [c] segments)
  | invalidEscape {offset : Nat} {raw : List Char} {passed : List Sequence}
      (hescape : decodeEscape? raw = none) (hlater : ∀ q ∈ passed, offset < q.offset) :
      Cut offset ('\\' :: raw) passed [.malformed ⟨.invalidEscape, ⟨offset, offset + 2⟩⟩]
  | plain {offset : Nat} {c : Char} {raw : List Char} {passed : List Sequence}
      {segments : List Segment} (hbackslash : c ≠ '\\')
      (hdoubled : doubledOpener? (c :: raw) = none) (hopener : opener? (c :: raw) = none)
      (hrest : Cut (offset + c.utf8Size) raw passed segments) :
      Cut offset (c :: raw) passed (pushLiteral [c] segments)

namespace Cut

variable {raw : List Char} {passed : List Sequence} {segments : List Segment} {segment : Segment}

/-- A segment that is not literal is that of a sequence, or an invalid escape. -/
theorem exists_of_mem (h : Cut offset raw passed segments) (hsegment : segment ∈ segments) :
    (∃ text, segment = .literal text) ∨ (∃ q ∈ passed, segment = q.segment) ∨
      ∃ e, segment = .malformed e ∧ e.cause = .invalidEscape := by
  induction h with
  | nil => exact absurd hsegment List.not_mem_nil
  | doubled _ _ ih =>
      rcases mem_pushLiteral hsegment with hliteral | hsegment
      · exact .inl hliteral
      · exact ih hsegment
  | sequence _ _ _ _ ih =>
      rcases List.mem_cons.1 hsegment with rfl | hsegment
      · exact .inr (.inl ⟨_, List.mem_cons_self, rfl⟩)
      · rcases ih hsegment with hliteral | ⟨q, hq, hsegment⟩ | hinvalid
        · exact .inl hliteral
        · exact .inr (.inl ⟨q, List.mem_cons_of_mem _ hq, hsegment⟩)
        · exact .inr (.inr hinvalid)
  | escape _ _ ih =>
      rcases mem_pushLiteral hsegment with hliteral | hsegment
      · exact .inl hliteral
      · exact ih hsegment
  | invalidEscape =>
      obtain rfl := List.mem_singleton.1 hsegment
      exact .inr (.inr ⟨_, rfl, rfl⟩)
  | plain _ _ _ _ ih =>
      rcases mem_pushLiteral hsegment with hliteral | hsegment
      · exact .inl hliteral
      · exact ih hsegment

/-- Without an invalid escape the splitter finds all the sequences. -/
theorem sequences_eq (h : Cut offset raw passed segments) (hvalid : ∀ e, .malformed e ∉ segments) :
    sequences segments = passed.map Sequence.segment := by
  replace hvalid (e : SyntaxError) : .malformed e ∉ sequences segments :=
    fun he => hvalid e (List.mem_filter.1 he).1
  induction h with
  | nil => rfl
  | doubled _ _ ih =>
      rw [sequences_pushLiteral] at hvalid ⊢
      exact ih hvalid
  | sequence _ _ _ _ ih =>
      rw [sequences_segment] at hvalid ⊢
      rw [ih fun e he => hvalid e (List.mem_cons_of_mem _ he), List.map_cons]
  | escape _ _ ih =>
      rw [sequences_pushLiteral] at hvalid ⊢
      exact ih hvalid
  | invalidEscape => exact absurd List.mem_cons_self (hvalid _)
  | plain _ _ _ _ ih =>
      rw [sequences_pushLiteral] at hvalid ⊢
      exact ih hvalid

end Cut

/-! ### Text before the closing quote -/

theorem opener?_append_quote (cs after : List Char) :
    opener? (cs ++ '"' :: after) = (opener? cs).map fun (c, rest) => (c, rest ++ '"' :: after) := by
  cases h : opener? cs with
  | some found =>
      obtain ⟨hc, rfl⟩ := opener?_eq_some_iff.1 h
      exact opener?_eq_some_iff.2 ⟨hc, rfl⟩
  | none =>
      refine Option.eq_none_iff_forall_ne_some.2 ?_
      rintro ⟨c, rest⟩ h'
      -- The quote is neither a marker nor a brace, so the opener stands in front of it.
      obtain ⟨hc, heq⟩ := opener?_eq_some_iff.1 h'
      rcases cs with _ | ⟨d, _ | ⟨d', cs⟩⟩
      · rw [← (List.cons.inj heq).1] at hc
        simp at hc
      · simp at heq
      · obtain ⟨hd, heq⟩ := List.cons.inj heq
        obtain rfl := (List.cons.inj heq).1
        rw [hd, opener?_eq_some_iff.2 ⟨hc, rfl⟩] at h
        cases h

theorem doubledOpener?_append_quote (cs after : List Char) :
    doubledOpener? (cs ++ '"' :: after) =
      (doubledOpener? cs).map fun (c, rest) => (c, rest ++ '"' :: after) := by
  cases h : doubledOpener? cs with
  | some found =>
      obtain ⟨hc, rfl⟩ := doubledOpener?_eq_some_iff.1 h
      exact doubledOpener?_eq_some_iff.2 ⟨hc, rfl⟩
  | none =>
      refine Option.eq_none_iff_forall_ne_some.2 ?_
      rintro ⟨c, rest⟩ h'
      obtain ⟨hc, heq⟩ := doubledOpener?_eq_some_iff.1 h'
      cases cs with
      | nil =>
          rw [← (List.cons.inj heq).1] at hc
          simp at hc
      | cons d cs =>
          -- Behind its first character a doubled opener is an opener.
          obtain ⟨hd, heq⟩ := List.cons.inj heq
          have hopener : opener? (cs ++ '"' :: after) = some (c, rest) :=
            opener?_eq_some_iff.2 ⟨hc, heq⟩
          rw [opener?_append_quote] at hopener
          obtain ⟨⟨c', rest'⟩, hfound, hpair⟩ := Option.map_eq_some_iff.1 hopener
          obtain ⟨rfl, -⟩ := Prod.mk.inj hpair
          obtain ⟨-, rfl⟩ := opener?_eq_some_iff.1 hfound
          rw [hd, doubledOpener?_eq_some_iff.2 ⟨hc, rfl⟩] at h
          cases h

theorem scan?_plain {plain : List Char} (h : ∀ c ∈ plain, IsPlainByte c) (offset : Nat)
    (cs : List Char) : scan? offset (plain ++ cs) =
      (scan? (offset + byteLength plain) cs).map (.behind [] plain) := by
  induction plain generalizing offset with
  | nil =>
      cases hscan : scan? offset cs with
      | none => simp [byteLength, hscan]
      | some scan => simp [byteLength, hscan, Scan.behind]
  | cons c plain ih =>
      obtain ⟨⟨⟨hquote, hline, hbackslash, hdollar, hpercent⟩, -⟩, hplain⟩ := List.forall_mem_cons.1 h
      rw [List.cons_append, scan?_other offset hquote hline (fun hc => hbackslash hc.1)
        (doubledOpener?_eq_none hdollar hpercent _) (opener?_eq_none hdollar hpercent _),
        ih hplain, Option.map_map, byteLength, Nat.add_assoc]
      rfl

/-- What is found behind some characters, if the raw text begins with them. -/
theorem map_behind_eq_some {found : Option Scan} {added passed : List Sequence}
    {chars raw after : List Char}
    (h : found.map (Scan.behind added chars) = some ⟨passed, chars ++ raw, after⟩) :
    ∃ passed', found = some ⟨passed', raw, after⟩ ∧ passed = added ++ passed' := by
  obtain ⟨⟨passed', raw', after'⟩, rfl, hscan⟩ := Option.map_eq_some_iff.1 h
  simp only [Scan.behind, Scan.mk.injEq, List.append_cancel_left_eq] at hscan
  obtain ⟨rfl, rfl, rfl⟩ := hscan
  exact ⟨passed', rfl, rfl⟩

theorem map_behind_behind (found : Option Scan) (added added' : List Sequence)
    (chars chars' : List Char) :
    (found.map (Scan.behind added chars)).map (Scan.behind added' chars') =
      found.map (Scan.behind (added' ++ added) (chars' ++ chars)) := by
  cases found with
  | none => rfl
  | some scan => simp only [Option.map_some, Scan.behind, List.append_assoc]

theorem scan?_line (offset : Nat) (cs : List Char) : scan? offset ('\n' :: cs) = none := by
  rw [scan?]
  rfl

theorem eq_append_of_scan? {scan : Scan} (h : scan? offset cs = some scan) :
    cs = scan.raw ++ '"' :: scan.after := by
  have htext : quotedText? cs = some scan.text := by
    rw [← map_text_scan? offset, h]
    rfl
  exact closing?_eq_append htext

/-- A sequence that was passed over is closed in the raw text, and the scan goes on behind it. -/
theorem exists_of_scan?_sequence (hc : c = '$' ∨ c = '%') {passed : List Sequence}
    (h : scan? offset (c :: '\x7b' :: (rest ++ '"' :: after)) =
      some ⟨passed, c :: '\x7b' :: rest, after⟩) :
    ∃ inside raw passed', rest = inside ++ '\x7d' :: raw ∧
      bracedText? rest = some (inside, raw) ∧ passed = ⟨c, offset, inside⟩ :: passed' ∧
      scan? (offset + 3 + byteLength inside) (raw ++ '"' :: after) = some ⟨passed', raw, after⟩ := by
  rw [scan?_sequence hc] at h
  obtain ⟨⟨inside, behind⟩, hbraced, h⟩ := Option.bind_eq_some_iff.1 h
  obtain ⟨⟨passed', raw, after'⟩, hlater, hscan⟩ := Option.map_eq_some_iff.1 h
  obtain ⟨rfl, hraw, rfl⟩ := (Scan.mk.injEq ..).mp hscan
  obtain rfl : rest = inside ++ '\x7d' :: raw := by
    simpa [Sequence.chars] using hraw.symm
  obtain rfl := eq_append_of_scan? hlater
  refine ⟨inside, raw, passed', rfl, ?_, rfl, hlater⟩
  -- The brace is found without the text behind the quote as well.
  exact closing?_replace hbraced raw

/-- The splitter cuts raw text along the sequences that the lexer passed over in it. -/
theorem cut_of_scan? {raw : List Char} {passed : List Sequence}
    (h : scan? offset (raw ++ '"' :: after) = some ⟨passed, raw, after⟩) :
    Cut offset raw passed (split true offset raw) := by
  have hsplits := splits true offset raw
  generalize split true offset raw = segments at hsplits ⊢
  induction hsplits generalizing passed with
  | @doubled offset c rest segments hc hrest ih =>
      obtain ⟨passed', hlater, rfl⟩ := map_behind_eq_some ((scan?_doubled hc ..).symm.trans h)
      exact .doubled hc (ih hlater)
  | @unclosed offset c rest hc hbraced =>
      -- The lexer has found the closing brace.
      obtain ⟨inside, raw, passed', -, hclosed, -⟩ := exists_of_scan?_sequence hc h
      cases hbraced.symm.trans hclosed
  | @sequence offset c inside behind segments hc hbraced hrest ih =>
      obtain ⟨inside', raw, passed', -, hclosed, rfl, hlater⟩ := exists_of_scan?_sequence hc h
      obtain ⟨rfl, rfl⟩ := Prod.mk.inj (Option.some.inj (hbraced.symm.trans hclosed))
      let q : Sequence := ⟨c, offset, inside⟩
      have hchars : byteLength q.chars = 3 + byteLength inside := byteLength_sequence hc inside
      have hcut := ih hlater
      rw [Nat.add_assoc, ← hchars] at hcut
      have hraw : c :: '\x7b' :: (inside ++ '\x7d' :: behind) = q.chars ++ behind := by
        simp only [Sequence.chars, q, List.cons_append, List.append_assoc, List.nil_append]
      rw [hraw]
      exact .sequence hc rfl hbraced hcut
  | nil offset =>
      rw [List.nil_append, scan?_quote] at h
      obtain ⟨rfl, -⟩ := (Scan.mk.injEq ..).mp (Option.some.inj h)
      exact .nil offset
  | @invalidEscape offset cs hescapes hdecode =>
      refine .invalidEscape hdecode ?_
      -- The scan goes on behind the character after the backslash.
      obtain ⟨d, rest, hrest⟩ := List.exists_cons_of_ne_nil
        (List.append_ne_nil_of_right_ne_nil cs (List.cons_ne_nil '"' after))
      rw [List.cons_append, hrest, scan?_hidden] at h
      obtain ⟨later, hlater, hscan⟩ := Option.map_eq_some_iff.1 h
      obtain ⟨rfl, -⟩ := (Scan.mk.injEq ..).mp hscan
      intro q hq
      have hplace := (standsIn_of_scan? hlater q hq).offset_le
      omega
  | @escape offset d cs rest segments hescapes hdecode hrest ih =>
      obtain ⟨first, digits, rfl, hfirst, hdigits⟩ := decodeEscape?_eq_append hdecode
      -- The characters behind the first one of the escape are nothing special to the lexer.
      have hscan : scan? offset ('\\' :: first :: (digits ++ (rest ++ '"' :: after))) =
          (scan? (offset + 1 + byteLength (first :: digits)) (rest ++ '"' :: after)).map
            (.behind [] ('\\' :: first :: digits)) := by
        rw [scan?_hidden, scan?_plain hdigits, map_behind_behind, byteLength, Nat.add_assoc]
        rfl
      have hbytes : byteLength (first :: digits) =
          (first :: (digits ++ rest)).length - rest.length := by
        rw [byteLength, hfirst, byteLength_eq_length fun d hd => (hdigits d hd).2,
          List.length_cons, List.length_append]
        omega
      rw [← hbytes] at ih
      obtain ⟨passed', hlater, rfl⟩ := map_behind_eq_some (hscan.symm.trans (by simpa using h))
      rw [← List.cons_append] at hdecode
      exact .escape hdecode (ih hlater)
  | @plain offset c cs segments hplain hdoubled hopener hrest ih =>
      have hbackslash : c ≠ '\\' := hplain rfl
      have hquote : c ≠ '"' := by
        rintro rfl
        rw [List.cons_append, scan?_quote] at h
        cases h
      have hline : c ≠ '\n' := by
        rintro rfl
        rw [List.cons_append, scan?_line] at h
        cases h
      -- The closing quote makes no sequence of what is none without it.
      have hdoubled' := doubledOpener?_append_quote (c :: cs) after
      have hopener' := opener?_append_quote (c :: cs) after
      rw [hdoubled, Option.map_none] at hdoubled'
      rw [hopener, Option.map_none] at hopener'
      have hscan := scan?_other offset hquote hline (fun hc => hbackslash hc.1) hdoubled' hopener'
      obtain ⟨passed', hlater, rfl⟩ := map_behind_eq_some (hscan.symm.trans h)
      exact .plain hbackslash hdoubled hopener (ih hlater)

/-! ## What is cut out of a sequence -/

/-- A strip marker, if there is one. -/
def tilde (strip : Bool) : List Char :=
  if strip then ['~'] else []

/-- How a sequence becomes a segment. An interpolation has the text between the braces and their
strip markers; a directive has what is left of the text behind its keyword without the blanks around
it, and none if nothing is left. -/
inductive Sequence.CutAs (q : Sequence) : Segment → Prop
  | interpolation (stripLeft stripRight : Bool) (expr : List Char) (hmarker : q.marker = '$')
      (hinside : q.inside = tilde stripLeft ++ (expr ++ tilde stripRight))
      (hleft : stripLeft = false → q.inside.head? ≠ some '~')
      (hright : stripRight = false → expr.getLast? ≠ some '~') :
      q.CutAs (.interpolation stripLeft stripRight
        (q.offset + byteLength ('$' :: '\x7b' :: tilde stripLeft)) expr)
  | directive (head expr tail controlled : List Char) (hmarker : q.marker = '%')
      (hchars : q.chars = head ++ (expr ++ tail))
      (hcontrolled : controlledText? (Text.trimStart (stripMarkers q.inside).2.1) = some controlled)
      (hexpr : expr = Text.trim controlled) :
      q.CutAs (.directive head (q.offset + byteLength head) expr tail)
  | verbatim (hmarker : q.marker = '%') (hnone : controlling? (stripMarkers q.inside).2.1 = none) :
      q.CutAs (.verbatim q.chars)

theorem takeEndTilde_eq_tilde (cs : List Char) :
    (takeEndTilde cs).2 = tilde ((takeEndTilde cs).2 ≠ []) ∧
      ((takeEndTilde cs).2 = [] → (takeEndTilde cs).1.getLast? ≠ some '~') := by
  rw [takeEndTilde]
  split
  · exact ⟨rfl, fun h => absurd h (List.cons_ne_nil _ _)⟩
  · rename_i hlast
    exact ⟨rfl, fun _ => hlast⟩

theorem stripMarkers_eq_tilde (inside : List Char) :
    (stripMarkers inside).1 = tilde ((stripMarkers inside).1 ≠ []) ∧
      (stripMarkers inside).2.2 = tilde ((stripMarkers inside).2.2 ≠ []) ∧
      ((stripMarkers inside).1 = [] → inside.head? ≠ some '~') ∧
      ((stripMarkers inside).2.2 = [] → (stripMarkers inside).2.1.getLast? ≠ some '~') := by
  by_cases h : inside.head? = some '~'
  · obtain ⟨rest, rfl⟩ := List.head?_eq_some_iff.1 h
    obtain ⟨htilde, hlast⟩ := takeEndTilde_eq_tilde rest
    exact ⟨rfl, htilde, fun h => absurd h (List.cons_ne_nil _ _), hlast⟩
  · obtain ⟨htilde, hlast⟩ := takeEndTilde_eq_tilde inside
    rw [stripMarkers_of_head? h]
    exact ⟨rfl, htilde, fun _ => h, hlast⟩

theorem cutAs_interpolation {q : Sequence} (hmarker : q.marker = '$') :
    q.CutAs (interpolation q.offset q.inside) := by
  obtain ⟨hleft, hright, hhead, hlast⟩ := stripMarkers_eq_tilde q.inside
  have hinside := stripMarkers_append q.inside
  rw [interpolation_eq]
  generalize stripMarkers q.inside = parts at *
  obtain ⟨left, expr, right⟩ := parts
  have hcut := Sequence.CutAs.interpolation (q := q) (left ≠ []) (right ≠ []) expr hmarker
    (by rw [← hleft, ← hright, hinside]) (fun h => hhead (by simpa using h))
    (fun h => hlast (by simpa using h))
  rwa [← hleft] at hcut

theorem cutAs_directive {q : Sequence} (hmarker : q.marker = '%') :
    q.CutAs (directive q.offset q.inside) := by
  cases hcontrolling : controlling? (stripMarkers q.inside).2.1 with
  | none =>
      have hdirective : directive q.offset q.inside = .verbatim q.chars := by
        simp only [directive, hcontrolling, Sequence.chars, hmarker, List.cons_append]
      rw [hdirective]
      exact .verbatim hmarker hcontrolling
  | some parts =>
      obtain ⟨before, expr, after⟩ := parts
      obtain ⟨-, rest, hrest, hexpr⟩ := controlling?_eq_append hcontrolling
      have hdirective : directive q.offset q.inside = .directive
          ('%' :: '\x7b' :: (stripMarkers q.inside).1 ++ before)
          (q.offset + byteLength ('%' :: '\x7b' :: (stripMarkers q.inside).1 ++ before)) expr
          (after ++ (stripMarkers q.inside).2.2 ++ ['\x7d']) := by
        simp only [directive, hcontrolling]
      have hchars := (directive_eq_append hdirective).1
      rw [hdirective]
      refine .directive _ expr _ rest hmarker ?_ hrest hexpr
      rw [Sequence.chars, hmarker, hchars]

theorem cutAs_segment {q : Sequence} (hmarker : q.marker = '$' ∨ q.marker = '%') :
    q.CutAs q.segment := by
  unfold Sequence.segment
  rcases hmarker with hmarker | hmarker
  · rw [if_neg (by rw [hmarker]; decide)]
    exact cutAs_interpolation hmarker
  · rw [if_pos hmarker]
    exact cutAs_directive hmarker

/-- The expression of a sequence stands in the source where its offset says. -/
theorem Sequence.CutAs.standsAt {source : String} {q : Sequence} {segment : Segment} {place : Nat}
    {expr : List Char} (h : q.CutAs segment) (hq : StandsAt source q.offset q.chars)
    (hplace : segment.embedded? = some (place, expr)) : StandsAt source place expr := by
  cases h with
  | interpolation stripLeft stripRight expr hmarker hinside hleft hright =>
      obtain ⟨rfl, rfl⟩ := Prod.mk.inj (Option.some.inj hplace)
      have hchars : q.chars = '$' :: '\x7b' :: tilde stripLeft ++
          (expr ++ (tilde stripRight ++ ['\x7d'])) := by
        rw [Sequence.chars, hmarker, hinside]
        simp only [List.append_assoc, List.cons_append]
      exact hq.part hchars
  | directive head expr tail controlled hmarker hchars hcontrolled hexpr =>
      obtain ⟨rfl, rfl⟩ := Prod.mk.inj (Option.some.inj hplace)
      exact hq.part hchars
  | verbatim => cases hplace

end

end Template
end Hcl
end ProviderMigration
