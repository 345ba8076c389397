import ProviderMigration.Proofs.Hcl.Span
import ProviderMigration.Proofs.Hcl.Template.Quote
import ProviderMigration.Proofs.Hcl.Token.Append

/-!
# Where the segments of a template stand

Splitting a raw text loses no place: escapes and strip markers have a byte for each character, and
what stands before the expression of a sequence is counted in bytes.

* `decodeEscape?_eq_append`, `stripMarkers_append`, `controlling?_eq_append`,
  `directive_eq_append` — the parts that make up an escape, a sequence and a directive;
* `Splits`, `splits` — the ways in which a raw text begins, and what is cut off in each of them;
* `Segment.StandsIn`, `standsIn_of_mem_split` — the expression of a segment is a part of the raw
  text, at the offset that the segment says, and so is what a malformed segment points at;
* `lt_place_of_mem_split` — it does not begin where the raw text does.
-/

namespace ProviderMigration
namespace Hcl
namespace Template

open Text (byteLength)

variable {c : Char} {cs expr rest : List Char} {segment : Segment}

/-! ## Openers -/

theorem opener?_eq_some_iff :
    opener? cs = some (c, rest) ↔ (c = '$' ∨ c = '%') ∧ cs = c :: '\x7b' :: rest := by
  constructor
  · intro h
    unfold opener? at h
    split at h
    · obtain ⟨rfl, rfl⟩ := Prod.mk.inj (Option.some.inj h)
      exact ⟨.inl rfl, rfl⟩
    · obtain ⟨rfl, rfl⟩ := Prod.mk.inj (Option.some.inj h)
      exact ⟨.inr rfl, rfl⟩
    · simp at h
  · rintro ⟨rfl | rfl, rfl⟩ <;> rfl

theorem doubledOpener?_eq_some_iff :
    doubledOpener? cs = some (c, rest) ↔ (c = '$' ∨ c = '%') ∧ cs = c :: c :: '\x7b' :: rest := by
  constructor
  · intro h
    unfold doubledOpener? at h
    split at h
    · obtain ⟨rfl, rfl⟩ := Prod.mk.inj (Option.some.inj h)
      exact ⟨.inl rfl, rfl⟩
    · obtain ⟨rfl, rfl⟩ := Prod.mk.inj (Option.some.inj h)
      exact ⟨.inr rfl, rfl⟩
    · simp at h
  · rintro ⟨rfl | rfl, rfl⟩ <;> rfl

theorem byteLength_sequence (hc : c = '$' ∨ c = '%') (inside : List Char) :
    byteLength (c :: '\x7b' :: (inside ++ ['\x7d'])) = 3 + byteLength inside := by
  have hopener : byteLength [c, '\x7b'] = 2 := by rcases hc with rfl | rfl <;> rfl
  have hcloser : byteLength ['\x7d'] = 1 := rfl
  rw [show c :: '\x7b' :: (inside ++ ['\x7d']) = [c, '\x7b'] ++ (inside ++ ['\x7d']) from rfl,
    Text.byteLength_append, Text.byteLength_append, hopener, hcloser]
  omega

/-! ## Escapes -/

/-- The character takes one byte and means nothing between quotes. -/
def IsPlainByte (c : Char) : Prop :=
  IsPlain c ∧ c.utf8Size = 1

theorem utf8Size_of_toNat_lt (h : c.toNat < 128) : c.utf8Size = 1 := by
  have hval : c.val ≤ 0x7F := UInt32.le_iff_toNat_le.2 (Nat.le_of_lt_succ h)
  exact if_pos hval

theorem isPlainByte_of_hexDigit? {n : Nat} (h : hexDigit? c = some n) : IsPlainByte c := by
  refine ⟨?_, utf8Size_of_toNat_lt ?_⟩
  · refine ⟨?_, ?_, ?_, ?_, ?_⟩ <;> rintro rfl <;> cases h
  · -- Digits and the letters through `f` have code points below 128.
    have hcode : c.isDigit = true ∨ c ≤ 'f' ∨ c ≤ 'F' := by
      unfold hexDigit? at h
      split at h
      · exact .inl ‹_›
      split at h
      · exact .inr (.inl ‹_ ∧ _›.2)
      split at h
      · exact .inr (.inr ‹_ ∧ _›.2)
      · cases h
    rcases hcode with hdigit | hlower | hupper
    · exact Nat.lt_of_le_of_lt (Char.isDigit_iff_toNat.1 hdigit).2 (by decide)
    · exact Nat.lt_of_le_of_lt (UInt32.le_iff_toNat_le.1 hlower) (by decide)
    · exact Nat.lt_of_le_of_lt (UInt32.le_iff_toNat_le.1 hupper) (by decide)

theorem isPlainByte_of_hexValue? {digits : List Char} {n : Nat} (h : hexValue? digits = some n) :
    ∀ c ∈ digits, IsPlainByte c := by
  -- The fold starts with any number.
  have hfold (digits : List Char) (value n : Nat)
      (h : digits.foldlM (fun value c => (hexDigit? c).map (16 * value + ·)) value = some n) :
      ∀ c ∈ digits, IsPlainByte c := by
    induction digits generalizing value with
    | nil => exact List.forall_mem_nil _
    | cons c digits ih =>
        rw [List.foldlM_cons] at h
        obtain ⟨value', hvalue, h⟩ := Option.bind_eq_some_iff.1 h
        obtain ⟨digit, hdigit, -⟩ := Option.map_eq_some_iff.1 hvalue
        exact List.forall_mem_cons.2 ⟨isPlainByte_of_hexDigit? hdigit, ih value' h⟩
  exact hfold digits 0 n h

theorem codePoint?_eq_append {count : Nat} (h : codePoint? count cs = some (c, rest)) :
    ∃ digits, cs = digits ++ rest ∧ ∀ d ∈ digits, IsPlainByte d := by
  simp only [codePoint?] at h
  split at h
  · obtain ⟨value, hvalue, h⟩ := Option.bind_eq_some_iff.1 h
    obtain ⟨d, -, heq⟩ := Option.bind_eq_some_iff.1 h
    obtain ⟨-, rfl⟩ := Prod.mk.inj (Option.some.inj heq)
    refine ⟨cs.take count, (List.take_append_drop count cs).symm, ?_⟩
    have hplain := isPlainByte_of_hexValue? hvalue
    split at hplain
    · -- A plus sign before the digits is plain as well.
      rename_i hplus
      obtain ⟨tail, htail⟩ := List.head?_eq_some_iff.1 hplus
      rw [htail] at hplain ⊢
      exact List.forall_mem_cons.2 ⟨by unfold IsPlainByte IsPlain; decide, hplain⟩
    · exact hplain
  · simp at h

/-- An escape is a character after the backslash and plain digits. -/
theorem decodeEscape?_eq_append (h : decodeEscape? cs = some (c, rest)) :
    ∃ first digits, cs = first :: (digits ++ rest) ∧ first.utf8Size = 1 ∧
      ∀ d ∈ digits, IsPlainByte d := by
  have hletter (first : Char) (hfirst : first.utf8Size = 1) :
      ∃ first' digits, first :: rest = first' :: (digits ++ rest) ∧ first'.utf8Size = 1 ∧
        ∀ d ∈ digits, IsPlainByte d :=
    ⟨first, [], rfl, hfirst, List.forall_mem_nil _⟩
  unfold decodeEscape? at h
  split at h
  case h_6 =>
    obtain ⟨digits, rfl, hdigits⟩ := codePoint?_eq_append h
    exact ⟨'u', digits, rfl, by decide, hdigits⟩
  case h_7 =>
    obtain ⟨digits, rfl, hdigits⟩ := codePoint?_eq_append h
    exact ⟨'U', digits, rfl, by decide, hdigits⟩
  case h_8 => simp at h
  all_goals
    obtain ⟨-, rfl⟩ := Prod.mk.inj (Option.some.inj h)
    exact hletter _ (by decide)

theorem decodeEscape?_suffix (h : decodeEscape? cs = some (c, rest)) : rest <:+ cs := by
  obtain ⟨first, digits, rfl, -⟩ := decodeEscape?_eq_append h
  exact (List.suffix_append digits rest).trans (List.suffix_cons first _)

theorem byteLength_eq_length {text : List Char} (h : ∀ c ∈ text, c.utf8Size = 1) :
    byteLength text = text.length := by
  induction text with
  | nil => rfl
  | cons c text ih =>
      rw [List.forall_mem_cons] at h
      rw [byteLength, h.1, ih h.2, List.length_cons, Nat.add_comm]

/-- An escape has as many bytes as characters. -/
theorem byteLength_escape (h : decodeEscape? cs = some (c, rest)) :
    ∃ taken, cs = taken ++ rest ∧ byteLength taken = cs.length - rest.length := by
  obtain ⟨first, digits, rfl, hfirst, hdigits⟩ := decodeEscape?_eq_append h
  refine ⟨first :: digits, rfl, ?_⟩
  rw [byteLength_eq_length (List.forall_mem_cons.2 ⟨hfirst, fun d hd => (hdigits d hd).2⟩)]
  simp only [List.length_cons, List.length_append]
  omega

/-! ## Literal text in front -/

/-- Literal text is put in front of a literal segment, or before the segments. -/
theorem pushLiteral_cases (front : List Char) (segments : List Segment) :
    (∃ text rest, segments = .literal text :: rest ∧
        pushLiteral front segments = .literal (front ++ text) :: rest) ∨
      pushLiteral front segments = .literal front :: segments := by
  unfold pushLiteral
  split
  · exact .inl ⟨_, _, rfl, rfl⟩
  · exact .inr rfl

theorem prefix_of_pushLiteral {front text : List Char} {segments later : List Segment}
    (h : pushLiteral front later = .literal text :: segments) : front <+: text := by
  rcases pushLiteral_cases front later with ⟨merged, rest, -, heq⟩ | heq
  · obtain rfl := Segment.literal.inj (List.cons.inj (heq.symm.trans h)).1
    exact List.prefix_append front merged
  · obtain rfl := Segment.literal.inj (List.cons.inj (heq.symm.trans h)).1
    exact List.prefix_refl front

theorem mem_pushLiteral {front : List Char} {segments : List Segment}
    (h : segment ∈ pushLiteral front segments) :
    (∃ text, segment = .literal text) ∨ segment ∈ segments := by
  rcases pushLiteral_cases front segments with ⟨text, rest, rfl, heq⟩ | heq
  · rw [heq] at h
    exact (List.mem_cons.1 h).imp (⟨_, ·⟩) (List.mem_cons_of_mem _)
  · rw [heq] at h
    exact (List.mem_cons.1 h).imp_left (⟨_, ·⟩)

/-! ## The rules of the splitter -/

/-- The segments of a raw text that stands `offset` bytes into the source, by what the text begins
with. -/
inductive Splits (escapes : Bool) : Nat → List Char → List Segment → Prop
  | nil (offset : Nat) : Splits escapes offset [] []
  | doubled {offset : Nat} {c : Char} {rest : List Char} {segments : List Segment}
      (hc : c = '$' ∨ c = '%') (hrest : Splits escapes (offset + 3) rest segments) :
      Splits escapes offset (c :: c :: '\x7b' :: rest) (pushLiteral [c, '\x7b'] segments)
  | unclosed {offset : Nat} {c : Char} {rest : List Char} (hc : c = '$' ∨ c = '%')
      (hbraced : bracedText? rest = none) :
      Splits escapes offset (c :: '\x7b' :: rest)
        [.malformed ⟨.unterminatedSequence,
          ⟨offset, offset + byteLength (c :: '\x7b' :: rest)⟩⟩]
  | sequence {offset : Nat} {c : Char} {inside after : List Char} {segments : List Segment}
      (hc : c = '$' ∨ c = '%')
      (hbraced : bracedText? (inside ++ '\x7d' :: after) = some (inside, after))
      (hrest : Splits escapes (offset + 3 + byteLength inside) after segments) :
      Splits escapes offset (c :: '\x7b' :: (inside ++ '\x7d' :: after))
        ((if c = '%' then directive offset inside else interpolation offset inside) :: segments)
  | invalidEscape {offset : Nat} {cs : List Char} (hescapes : escapes = true)
      (hdecode : decodeEscape? cs = none) :
      Splits escapes offset ('\\' :: cs) [.malformed ⟨.invalidEscape, ⟨offset, offset + 2⟩⟩]
  | escape {offset : Nat} {c : Char} {cs rest : List Char} {segments : List Segment}
      (hescapes : escapes = true) (hdecode : decodeEscape? cs = some (c, rest))
      (hrest : Splits escapes (offset + 1 + (cs.length - rest.length)) rest segments) :
      Splits escapes offset ('\\' :: cs) (pushLiteral [c] segments)
  | plain {offset : Nat} {c : Char} {cs : List Char} {segments : List Segment}
      (hplain : escapes = true → c ≠ '\\') (hdoubled : doubledOpener? (c :: cs) = none)
      (hopener : opener? (c :: cs) = none)
      (hrest : Splits escapes (offset + c.utf8Size) cs segments) :
      Splits escapes offset (c :: cs) (pushLiteral [c] segments)

theorem splits (escapes : Bool) (offset : Nat) (raw : List Char) :
    Splits escapes offset raw (split escapes offset raw) := by
  fun_induction split escapes offset raw with
  | case1 offset raw c rest hdoubled ih =>
      obtain ⟨hc, rfl⟩ := doubledOpener?_eq_some_iff.1 hdoubled
      exact .doubled hc ih
  | case2 offset raw hdoubled c rest hopener hbraced =>
      obtain ⟨hc, rfl⟩ := opener?_eq_some_iff.1 hopener
      exact .unclosed hc hbraced
  | case3 offset raw hdoubled c rest hopener inside after hbraced part ih =>
      obtain ⟨hc, rfl⟩ := opener?_eq_some_iff.1 hopener
      obtain rfl : rest = inside ++ '\x7d' :: after := closing?_eq_append hbraced
      exact .sequence hc hbraced ih
  | case4 offset => exact .nil offset
  | case5 offset c cs hdoubled hopener hescape hdecode =>
      obtain ⟨hescapes, hc⟩ := Bool.and_eq_true_iff.1 hescape
      obtain rfl := of_decide_eq_true hc
      exact .invalidEscape hescapes hdecode
  | case6 offset c cs hdoubled hopener hescape d rest hdecode ih =>
      obtain ⟨hescapes, hc⟩ := Bool.and_eq_true_iff.1 hescape
      obtain rfl := of_decide_eq_true hc
      exact .escape hescapes hdecode ih
  | case7 offset c cs hdoubled hopener hplain ih =>
      exact .plain (by simpa using hplain) hdoubled hopener ih

theorem sequence_ne_literal (c : Char) (offset : Nat) (inside text : List Char) :
    (if c = '%' then directive offset inside else interpolation offset inside) ≠
      .literal text := by
  intro h
  split at h
  · simp only [directive] at h
    split at h <;> cases h
  · cases h

/-- A literal segment at the start begins with the first character of the raw text, or with the one
that the escape there stands for. -/
theorem Splits.head?_literal {escapes : Bool} {offset : Nat} {raw text : List Char}
    {segments : List Segment} (hsplits : Splits escapes offset raw (.literal text :: segments)) :
    text.head? = raw.head? ∨ ∃ c rest spelling, escapes = true ∧ raw = '\\' :: spelling ∧
      decodeEscape? spelling = some (c, rest) ∧ text.head? = some c := by
  generalize hall : Segment.literal text :: segments = all at hsplits
  cases hsplits with
  | nil | unclosed | invalidEscape => cases hall
  | doubled | plain =>
      obtain ⟨more, rfl⟩ := prefix_of_pushLiteral hall.symm
      exact .inl rfl
  | sequence => exact absurd (List.cons.inj hall).1.symm (sequence_ne_literal _ _ _ _)
  | escape hescapes hdecode =>
      obtain ⟨more, rfl⟩ := prefix_of_pushLiteral hall.symm
      exact .inr ⟨_, _, _, hescapes, rfl, hdecode, rfl⟩

/-! ## Strip markers -/

theorem takeEndTilde_append (cs : List Char) : (takeEndTilde cs).1 ++ (takeEndTilde cs).2 = cs := by
  rw [takeEndTilde]
  split
  · rename_i h
    obtain ⟨front, rfl⟩ := List.getLast?_eq_some_iff.1 h
    rw [List.dropLast_concat]
  · exact List.append_nil cs

theorem stripMarkers_of_head? {inside : List Char} (h : inside.head? ≠ some '~') :
    stripMarkers inside = ([], takeEndTilde inside) := by
  rw [stripMarkers]
  rintro rest rfl
  exact h rfl

/-- There is a strip marker or none. -/
theorem stripMarkers_left (inside : List Char) :
    (stripMarkers inside).1 = [] ∨ (stripMarkers inside).1 = ['~'] := by
  by_cases h : inside.head? = some '~'
  · obtain ⟨rest, rfl⟩ := List.head?_eq_some_iff.1 h
    exact .inr rfl
  · exact .inl (by rw [stripMarkers_of_head? h])

/-- The strip markers and the middle make up the inside of a sequence. -/
theorem stripMarkers_append (inside : List Char) :
    (stripMarkers inside).1 ++ ((stripMarkers inside).2.1 ++ (stripMarkers inside).2.2) =
      inside := by
  by_cases h : inside.head? = some '~'
  · obtain ⟨rest, rfl⟩ := List.head?_eq_some_iff.1 h
    exact congrArg (List.cons '~') (takeEndTilde_append rest)
  · rw [stripMarkers_of_head? h]
    exact takeEndTilde_append inside

theorem interpolation_eq (offset : Nat) (inside : List Char) :
    interpolation offset inside =
      .interpolation ((stripMarkers inside).1 ≠ []) ((stripMarkers inside).2.2 ≠ [])
        (offset + byteLength ('$' :: '\x7b' :: (stripMarkers inside).1))
        (stripMarkers inside).2.1 := by
  have hbytes : byteLength ('$' :: '\x7b' :: (stripMarkers inside).1) =
      2 + (stripMarkers inside).1.length := by
    rcases stripMarkers_left inside with h | h <;> rw [h] <;> rfl
  rw [hbytes, ← Nat.add_assoc]
  rfl

/-! ## Directives -/

/-- The rest of a text that begins with a blank. -/
def BlankRest (rest text : List Char) : Prop :=
  ∃ front b tail, text = front ++ rest ∧ rest = b :: tail ∧ Text.isBlank b = true

theorem isBlank_of_isAsciiBlank (h : Text.isAsciiBlank c = true) : Text.isBlank c = true := by
  simp only [Text.isAsciiBlank, Bool.or_eq_true, beq_iff_eq] at h
  rcases h with (((rfl | rfl) | rfl) | rfl) | rfl <;> decide

theorem blankRest_afterKeyword? {keyword : List Char}
    (h : afterKeyword? keyword cs = some rest) : BlankRest rest cs := by
  simp only [afterKeyword?] at h
  split at h
  · rename_i hand
    obtain rfl := Option.some.inj h
    obtain ⟨hbegins, hblank⟩ := Bool.and_eq_true_iff.1 hand
    obtain ⟨text, rfl⟩ := List.isPrefixOf_iff_prefix.1 hbegins
    rw [List.drop_left] at hblank ⊢
    cases text with
    | nil => exact Bool.noConfusion hblank
    | cons b text => exact ⟨keyword, b, text, rfl, rfl, hblank⟩
  · simp at h

theorem blankRest_throughIn? {front : List Char} (h : throughIn? cs = some (front, rest)) :
    BlankRest rest cs := by
  fun_induction throughIn? cs generalizing front with
  | case1 b a cs hblank =>
      obtain ⟨-, rfl⟩ := Prod.mk.inj (Option.some.inj h)
      exact ⟨[b, 'i', 'n'], a, cs, rfl, rfl,
        isBlank_of_isAsciiBlank (Bool.and_eq_true_iff.1 hblank).2⟩
  | case2 b a cs hblank ih =>
      obtain ⟨⟨front', rest'⟩, hfound, heq⟩ := Option.map_eq_some_iff.1 h
      obtain ⟨-, rfl⟩ := Prod.mk.inj heq
      obtain ⟨before, c, tail, htext, hrest, hc⟩ := ih hfound
      exact ⟨b :: before, c, tail, by rw [htext, List.cons_append], hrest, hc⟩
  | case3 b cs hin ih =>
      obtain ⟨⟨front', rest'⟩, hfound, heq⟩ := Option.map_eq_some_iff.1 h
      obtain ⟨-, rfl⟩ := Prod.mk.inj heq
      obtain ⟨before, c, tail, htext, hrest, hc⟩ := ih hfound
      exact ⟨b :: before, c, tail, by rw [htext, List.cons_append], hrest, hc⟩
  | case4 => simp at h

theorem blankRest_controlledText? (h : controlledText? cs = some rest) : BlankRest rest cs := by
  rw [controlledText?] at h
  split at h
  · rename_i found hif
    obtain rfl := Option.some.inj h
    exact blankRest_afterKeyword? hif
  · obtain ⟨_, -, hfor⟩ := Option.bind_eq_some_iff.1 h
    obtain ⟨⟨front, rest⟩, hfound, rfl⟩ := Option.map_eq_some_iff.1 hfor
    exact blankRest_throughIn? hfound

/-- What is controlled, in a text that ends with it. -/
theorem controlling?_append {front lead tail : List Char}
    (h : controlledText? (Text.trimStart (front ++ rest)) = some rest)
    (hrest : rest = lead ++ Text.trim rest ++ tail) (hstart : Text.trimStart rest =
      Text.trim rest ++ tail) :
    controlling? (front ++ rest) =
      if Text.trim rest = [] then none else some (front ++ lead, Text.trim rest, tail) := by
  rw [controlling?, h, Option.bind_some, hstart]
  dsimp only
  split
  · rfl
  · have htake : (front ++ rest).take
        ((front ++ rest).length - (Text.trim rest).length - tail.length) = front ++ lead := by
      have hsplit : front ++ rest = (front ++ lead) ++ (Text.trim rest ++ tail) := by
        rw [List.append_assoc, ← List.append_assoc lead, ← hrest]
      rw [hsplit]
      apply List.take_left'
      simp only [List.length_append]
      omega
    rw [List.drop_left, htake]

theorem exists_trimmed (rest : List Char) : ∃ lead tail,
    rest = lead ++ Text.trim rest ++ tail ∧ Text.trimStart rest = Text.trim rest ++ tail ∧
      lead = rest.takeWhile Text.isBlank ∧ ∀ c ∈ tail, Text.isBlank c = true := by
  obtain ⟨tail, hstart, htail⟩ := exists_dropEndWhile Text.isBlank (Text.trimStart rest)
  refine ⟨_, tail, ?_, hstart, rfl, htail⟩
  calc
    rest = rest.takeWhile Text.isBlank ++ Text.trimStart rest :=
          List.takeWhile_append_dropWhile.symm
    _ = rest.takeWhile Text.isBlank ++ Text.trim rest ++ tail := by
          rw [List.append_assoc]
          exact congrArg _ hstart

/-- The controlled text ends the directive. -/
theorem exists_controlledText? (h : controlledText? (Text.trimStart cs) = some rest) :
    ∃ front, cs = front ++ rest ∧ ∃ b tail, rest = b :: tail ∧ Text.isBlank b = true := by
  obtain ⟨front, b, tail, hfront, hrest, hb⟩ := blankRest_controlledText? h
  refine ⟨cs.takeWhile Text.isBlank ++ front, ?_, b, tail, hrest, hb⟩
  rw [List.append_assoc, ← hfront, Text.trimStart, List.takeWhile_append_dropWhile]

/-- The controlling expression is the controlled text between blanks, and with what stands around it
it makes up the directive. -/
theorem controlling?_eq_append {before tail : List Char}
    (h : controlling? cs = some (before, expr, tail)) :
    cs = before ++ (expr ++ tail) ∧
      ∃ rest, controlledText? (Text.trimStart cs) = some rest ∧ expr = Text.trim rest := by
  obtain ⟨rest, hrest, -⟩ := Option.bind_eq_some_iff.1 h
  obtain ⟨front, rfl, -⟩ := exists_controlledText? hrest
  obtain ⟨lead, tail', hsplit, hstart, -⟩ := exists_trimmed rest
  rw [controlling?_append hrest hsplit hstart] at h
  split at h
  · simp at h
  · obtain ⟨rfl, hpair⟩ := Prod.mk.inj (Option.some.inj h)
    obtain ⟨rfl, rfl⟩ := Prod.mk.inj hpair
    refine ⟨?_, rest, hrest, rfl⟩
    rw [List.append_assoc, ← List.append_assoc lead, ← hsplit]

/-- A directive with an expression is written as its head, the expression and its tail. -/
theorem directive_eq_append {offset place : Nat} {inside head tail : List Char}
    (h : directive offset inside = .directive head place expr tail) :
    '%' :: '\x7b' :: (inside ++ ['\x7d']) = head ++ (expr ++ tail) ∧
      place = offset + byteLength head := by
  simp only [directive] at h
  split at h
  · rename_i before found after hcontrolling
    injection h with hhead hplace hexpr htail
    subst hhead hplace hexpr htail
    have hmiddle := (controlling?_eq_append hcontrolling).1
    have hinside := stripMarkers_append inside
    generalize stripMarkers inside = parts at hmiddle hinside
    refine ⟨?_, rfl⟩
    rw [← hinside, hmiddle]
    simp only [List.append_assoc, List.cons_append]
  · cases h

/-! ## Segments -/

/-- The offset and the text of the expression of an interpolation or directive. -/
def Segment.embedded? : Segment → Option (Nat × List Char)
  | .interpolation _ _ place expr => some (place, expr)
  | .directive _ place expr _ => some (place, expr)
  | _ => none

/-- What the segment points at stands in the raw text, at the offset that it says. Only between
quotes an escape can be invalid. -/
def Segment.StandsIn (escapes : Bool) (offset : Nat) (raw : List Char) (segment : Segment) : Prop :=
  match segment with
  | .interpolation _ _ place expr =>
      ∃ front back, raw = front ++ (expr ++ back) ∧ place = offset + byteLength front
  | .directive _ place expr _ =>
      ∃ front back, raw = front ++ (expr ++ back) ∧ place = offset + byteLength front
  | .malformed error =>
      ∃ front back, raw = front ++ back ∧ error.span.start = offset + byteLength front ∧
        (error.cause = .unterminatedSequence ∧ error.span.stop = offset + byteLength raw ∨
          error.cause = .invalidEscape ∧ escapes = true ∧
            error.span.stop = error.span.start + 2 ∧ back.head? = some '\\')
  | _ => True

namespace Segment.StandsIn

variable {escapes : Bool} {offset : Nat} {front raw : List Char}

/-- A segment behind more text. -/
theorem behind (h : segment.StandsIn escapes (offset + byteLength front) raw) :
    segment.StandsIn escapes offset (front ++ raw) := by
  cases segment with
  | literal => trivial
  | verbatim => trivial
  | interpolation _ _ place expr =>
      obtain ⟨before, back, rfl, rfl⟩ := h
      refine ⟨front ++ before, back, (List.append_assoc ..).symm, ?_⟩
      rw [Text.byteLength_append, Nat.add_assoc]
  | directive _ place expr _ =>
      obtain ⟨before, back, rfl, rfl⟩ := h
      refine ⟨front ++ before, back, (List.append_assoc ..).symm, ?_⟩
      rw [Text.byteLength_append, Nat.add_assoc]
  | malformed error =>
      obtain ⟨before, back, rfl, hstart, hcause⟩ := h
      refine ⟨front ++ before, back, (List.append_assoc ..).symm, ?_, ?_⟩
      · rw [hstart, Text.byteLength_append, Nat.add_assoc]
      · rw [Text.byteLength_append, ← Nat.add_assoc]
        exact hcause

/-- The expression is a part of the raw text, as far from its start as the segment says. -/
theorem embedded {place : Nat} (h : segment.StandsIn escapes offset raw)
    (hplace : segment.embedded? = some (place, expr)) :
    ∃ front back, raw = front ++ (expr ++ back) ∧ place = offset + byteLength front := by
  cases segment with
  | interpolation =>
      obtain ⟨rfl, rfl⟩ := Prod.mk.inj (Option.some.inj hplace)
      exact h
  | directive =>
      obtain ⟨rfl, rfl⟩ := Prod.mk.inj (Option.some.inj hplace)
      exact h
  | literal => cases hplace
  | verbatim => cases hplace
  | malformed => cases hplace

/-- Only a backslash at the end is pointed at with the character behind the raw text. -/
theorem malformed {error : SyntaxError}
    (h : (Segment.malformed error).StandsIn escapes offset raw) :
    offset ≤ error.span.start ∧ error.span.start ≤ error.span.stop ∧
      error.span.stop ≤ offset + byteLength raw + escapes.toNat := by
  obtain ⟨front, back, rfl, hstart, hcause⟩ := h
  rw [Text.byteLength_append] at *
  rcases hcause with ⟨-, hstop⟩ | ⟨-, rfl, hstop, hback⟩
  · omega
  · obtain ⟨rest, rfl⟩ := List.head?_eq_some_iff.1 hback
    have hbyte : byteLength ('\\' :: rest) = 1 + byteLength rest := rfl
    have hone : true.toNat = 1 := rfl
    omega

end Segment.StandsIn

variable {escapes : Bool}

theorem standsIn_interpolation (offset : Nat) (inside after : List Char) :
    (interpolation offset inside).StandsIn escapes offset
      ('$' :: '\x7b' :: (inside ++ '\x7d' :: after)) := by
  rw [interpolation_eq]
  refine ⟨_, (stripMarkers inside).2.2 ++ '\x7d' :: after, ?_, rfl⟩
  have hinside := stripMarkers_append inside
  generalize stripMarkers inside = parts at hinside
  rw [← hinside]
  simp only [List.append_assoc, List.cons_append]

theorem standsIn_directive (offset : Nat) (inside after : List Char) :
    (directive offset inside).StandsIn escapes offset
      ('%' :: '\x7b' :: (inside ++ '\x7d' :: after)) := by
  have hdirective (segment : Segment) (h : directive offset inside = segment) :
      segment.StandsIn escapes offset ('%' :: '\x7b' :: (inside ++ '\x7d' :: after)) := by
    cases segment with
    | directive head place expr tail =>
        obtain ⟨hparts, hplace⟩ := directive_eq_append h
        refine ⟨head, tail ++ after, ?_, hplace⟩
        rw [← List.append_assoc expr, ← List.append_assoc head, ← hparts]
        simp only [List.append_assoc, List.cons_append, List.nil_append]
    | verbatim => trivial
    | _ =>
        simp only [directive] at h
        split at h <;> cases h
  exact hdirective _ rfl

/-- Segments that are not literal come from the text behind the literal one. -/
theorem standsIn_pushLiteral {offset : Nat} {text raw : List Char} {segments : List Segment}
    (front : List Char) (h : segment ∈ pushLiteral text segments)
    (hrest : segment ∈ segments → segment.StandsIn escapes (offset + byteLength front) raw) :
    segment.StandsIn escapes offset (front ++ raw) := by
  rcases mem_pushLiteral h with ⟨text, rfl⟩ | h
  · trivial
  · exact (hrest h).behind

/-- The segments of a raw text tell where they stand in it. -/
theorem Splits.standsIn {offset : Nat} {raw : List Char} {segments : List Segment}
    (hsplits : Splits escapes offset raw segments) (h : segment ∈ segments) :
    segment.StandsIn escapes offset raw := by
  induction hsplits with
  | nil => cases h
  | @doubled offset c rest segments hc hrest ih =>
      have hbytes : byteLength [c, c, '\x7b'] = 3 := by rcases hc with rfl | rfl <;> rfl
      exact standsIn_pushLiteral [c, c, '\x7b'] h (hbytes ▸ ih)
  | unclosed =>
      obtain rfl := List.mem_singleton.1 h
      exact ⟨[], _, rfl, rfl, .inl ⟨rfl, rfl⟩⟩
  | @sequence offset c inside after segments hc hbraced hrest ih =>
      rcases List.mem_cons.1 h with rfl | h
      · rcases hc with rfl | rfl
        · exact standsIn_interpolation offset inside after
        · exact standsIn_directive offset inside after
      · have hbehind := ih h
        rw [Nat.add_assoc, ← byteLength_sequence hc] at hbehind
        simpa only [List.cons_append, List.append_assoc, List.nil_append] using hbehind.behind
  | @invalidEscape offset cs hescapes hdecode =>
      obtain rfl := List.mem_singleton.1 h
      exact ⟨[], '\\' :: cs, rfl, rfl, .inr ⟨rfl, hescapes, rfl, rfl⟩⟩
  | @escape offset c cs rest segments hescapes hdecode hrest ih =>
      obtain ⟨taken, htaken, hbytes⟩ := byteLength_escape hdecode
      have hescaped : byteLength ('\\' :: taken) = 1 + (cs.length - rest.length) := by
        rw [← hbytes]
        rfl
      rw [htaken]
      refine standsIn_pushLiteral ('\\' :: taken) h fun h => ?_
      rw [hescaped, ← Nat.add_assoc]
      exact ih h
  | @plain offset c cs segments hplain hdoubled hopener hrest ih =>
      exact standsIn_pushLiteral [c] h ih

theorem standsIn_of_mem_split {offset : Nat} {raw : List Char}
    (h : segment ∈ split escapes offset raw) : segment.StandsIn escapes offset raw :=
  (splits escapes offset raw).standsIn h

theorem lt_place_of_interpolation {offset place : Nat} {inside : List Char}
    (h : (interpolation offset inside).embedded? = some (place, expr)) : offset < place := by
  rw [interpolation_eq] at h
  obtain ⟨rfl, -⟩ := Prod.mk.inj (Option.some.inj h)
  exact Nat.lt_add_of_pos_right (Text.byteLength_pos (by simp))

theorem lt_place_of_directive {offset place : Nat} {inside : List Char}
    (h : (directive offset inside).embedded? = some (place, expr)) : offset < place := by
  simp only [directive] at h
  split at h
  · obtain ⟨rfl, -⟩ := Prod.mk.inj (Option.some.inj h)
    exact Nat.lt_add_of_pos_right (Text.byteLength_pos (by simp))
  · cases h

/-- The opener of a sequence stands before its expression. -/
theorem Splits.lt_place {offset place : Nat} {raw : List Char} {segments : List Segment}
    (hsplits : Splits escapes offset raw segments) (h : segment ∈ segments)
    (hplace : segment.embedded? = some (place, expr)) : offset < place := by
  -- Literal text in front changes no place.
  have hbehind {first start : Nat} {front : List Char} {segments : List Segment}
      (hstart : first ≤ start) (h : segment ∈ pushLiteral front segments)
      (hrest : segment ∈ segments → start < place) : first < place := by
    rcases mem_pushLiteral h with ⟨text, rfl⟩ | h
    · cases hplace
    · exact Nat.lt_of_le_of_lt hstart (hrest h)
  induction hsplits with
  | nil => cases h
  | doubled _ _ ih => exact hbehind (Nat.le_add_right _ _) h ih
  | unclosed | invalidEscape =>
      obtain rfl := List.mem_singleton.1 h
      cases hplace
  | sequence _ _ _ ih =>
      rcases List.mem_cons.1 h with rfl | h
      · split at hplace
        · exact lt_place_of_directive hplace
        · exact lt_place_of_interpolation hplace
      · have hlater := ih h
        omega
  | escape _ _ _ ih =>
      exact hbehind (Nat.le_trans (Nat.le_add_right _ 1) (Nat.le_add_right _ _)) h ih
  | plain _ _ _ _ ih => exact hbehind (Nat.le_add_right _ _) h ih

theorem lt_place_of_mem_split {offset place : Nat} {raw : List Char}
    (h : segment ∈ split escapes offset raw) (hplace : segment.embedded? = some (place, expr)) :
    offset < place :=
  (splits escapes offset raw).lt_place h hplace

theorem expr_infix_of_mem_split {offset place : Nat} {raw : List Char}
    (h : segment ∈ split escapes offset raw) (hplace : segment.embedded? = some (place, expr)) :
    expr <:+: raw := by
  obtain ⟨front, back, rfl, -⟩ := (standsIn_of_mem_split h).embedded hplace
  exact ⟨front, back, List.append_assoc ..⟩

end Template
end Hcl
end ProviderMigration
