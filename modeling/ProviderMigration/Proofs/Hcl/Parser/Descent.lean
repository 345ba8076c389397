import ProviderMigration.Proofs.Hcl.Parser.Recursion

/-!
# Every call goes down

Whatever the functions of the parser call, the call is below their own: it reads what is left
behind a token that was read, it is for a lower level of the grammar, or it is for part of a token.
So what a function does depends on such calls only.

* `Grammar.Consuming` — functions that leave a rest of the tokens, a proper one where they must
  read something;
* `Grammar.unfold_agrees` — functions that call two grammars which agree on all calls below agree.
-/

namespace ProviderMigration
namespace Hcl

open Template (Segment)

namespace Parser

/-! ## Grammars that read tokens -/

/-- The functions leave a rest of the tokens, and a proper one where the grammar has no empty
words. -/
structure Grammar.Consuming (g : Grammar) : Prop where
  expression : ∀ {r c e after}, g.expression r c = .ok (e, after) → Passed c.tokens after.tokens
  binary : ∀ {r floor c e after}, g.binary r floor c = .ok (e, after) →
    Passed c.tokens after.tokens
  operators : ∀ {r floor lhs c e after}, g.operators r floor lhs c = .ok (e, after) →
    after.tokens <:+ c.tokens
  unary : ∀ {r c e after}, g.unary r c = .ok (e, after) → Passed c.tokens after.tokens
  traversal : ∀ {r c e after}, g.traversal r c = .ok (e, after) → Passed c.tokens after.tokens
  steps : ∀ {r c ss after}, g.steps r c = .ok (ss, after) → after.tokens <:+ c.tokens
  primary : ∀ {r c e after}, g.primary r c = .ok (e, after) → Passed c.tokens after.tokens
  arguments : ∀ {r c args expand after}, g.arguments r c = .ok (args, expand, after) →
    Passed c.tokens after.tokens
  tupleItems : ∀ {r first c items after}, g.tupleItems r first c = .ok (items, after) →
    Passed c.tokens after.tokens
  objectItems : ∀ {r first c items after}, g.objectItems r first c = .ok (items, after) →
    Passed c.tokens after.tokens
  comprehension : ∀ {r asObject c loop after}, g.comprehension r asObject c = .ok (loop, after) →
    Passed c.tokens after.tokens
  labels : ∀ {r type tokens ls rest}, g.labels r type tokens = .ok (ls, rest) → rest <:+ tokens
  body : ∀ {r inBlock first gap c b after}, g.body r inBlock first gap c = .ok (b, after) →
    after.tokens <:+ c.tokens
  item : ∀ {r name start c it after}, g.item r name start c = .ok (it, after) →
    after.tokens <:+ c.tokens

theorem Behind.passed {tokens : List Located} {c : Cursor} (h : Behind tokens c) :
    Passed tokens c.tokens := by
  obtain ⟨front, t, htokens, -⟩ := h
  exact ⟨front, t, htokens⟩

/-- Steps or operators may be missing. -/
theorem suffix_of_loop {c after : Cursor} (h : after = c ∨ Behind c.tokens after) :
    after.tokens <:+ c.tokens := by
  rcases h with rfl | h
  · exact List.suffix_rfl
  · exact h.suffix

theorem Grammar.consuming_withFuel (fuel : Nat) : (Grammar.withFuel fuel).Consuming where
  expression h := ((stopsBehind fuel).expression h).passed
  binary h := ((stopsBehind fuel).binary h).passed
  operators h := suffix_of_loop ((stopsBehind fuel).operators h)
  unary h := ((stopsBehind fuel).unary h).passed
  traversal h := ((stopsBehind fuel).traversal h).passed
  steps h := suffix_of_loop ((stopsBehind fuel).steps h)
  primary h := ((stopsBehind fuel).primary h).passed
  arguments h := ((stopsBehind fuel).arguments h).passed
  tupleItems h := ((stopsBehind fuel).tupleItems h).passed
  objectItems h := ((stopsBehind fuel).objectItems h).passed
  comprehension h := ((stopsBehind fuel).comprehension h).passed
  labels h := (labels_comment h).2
  body h := ((keepingItems fuel).body h).suffix
  item h := ((keepingItems fuel).item h).2.suffix

/-! ## Calls below -/

namespace Grammar

variable {g h : Grammar} {r : Region} {c : Cursor}

theorem unfold_expression (hg : g.Consuming)
    (hbelow : ∀ y, Below y (.expression r c) → g.AgreesAt h y) :
    g.unfold.expression r c = h.unfold.expression r c := by
  have hbinary : Below (.binary r 0 c) (.expression r c) :=
    .lower rfl rfl List.suffix_rfl (by simp [Call.level])
  simp only [unfold]
  refine bind_congr_ok (hbelow _ hbinary) ?_
  rintro ⟨condition, c₁⟩ hcondition
  -- Both branches come behind the condition, so they can be on its level again.
  have h₁ := hg.binary hcondition
  dsimp only
  split
  · rfl
  · rename_i c₂ hquestion
    have h₂ := h₁.trans_suffix (behind_eat? hquestion).suffix
    refine bind_congr_ok (hbelow (.expression r c₂) (.passed rfl rfl h₂)) ?_
    rintro ⟨whenTrue, c₃⟩ htrue
    have h₃ := h₂.trans_suffix (hg.expression htrue).suffix
    refine bind_congr_ok rfl ?_
    rintro ⟨span, c₄⟩ hcolon
    have h₄ := h₃.trans_suffix (behind_expect hcolon).suffix
    refine bind_congr_ok (hbelow (.expression r c₄) (.passed rfl rfl h₄)) ?_
    rintro ⟨whenFalse, c₅⟩ _
    rfl

theorem unfold_binary (hg : g.Consuming) {floor : Nat}
    (hbelow : ∀ y, Below y (.binary r floor c) → g.AgreesAt h y) :
    g.unfold.binary r floor c = h.unfold.binary r floor c := by
  have hunary : Below (.unary r c) (.binary r floor c) :=
    .lower rfl rfl List.suffix_rfl (by simp [Call.level])
  simp only [unfold]
  refine bind_congr_ok (hbelow _ hunary) ?_
  rintro ⟨lhs, c₁⟩ hlhs
  -- Behind an operand the loop over operators could be on any level.
  exact hbelow (.operators r floor lhs c₁) (.passed rfl rfl (hg.unary hlhs))

theorem unfold_operators (hg : g.Consuming) {floor : Nat} {lhs : Expr}
    (hbelow : ∀ y, Below y (.operators r floor lhs c) → g.AgreesAt h y) :
    g.unfold.operators r floor lhs c = h.unfold.operators r floor lhs c := by
  simp only [unfold]
  split
  · rfl
  · rename_i op c₁ hop
    have h₁ := (behind_nextIf? hop fun _ _ => isTrivia_of_binaryOp?).passed
    split
    · rfl
    · refine bind_congr_ok (hbelow (.binary r op.precedence c₁) (.passed rfl rfl h₁)) ?_
      rintro ⟨rhs, c₂⟩ hrhs
      have h₂ := h₁.trans_suffix (hg.binary hrhs).suffix
      exact hbelow (.operators r floor (.binary lhs op rhs) c₂) (.passed rfl rfl h₂)

theorem unfold_unary (hbelow : ∀ y, Below y (.unary r c) → g.AgreesAt h y) :
    g.unfold.unary r c = h.unfold.unary r c := by
  simp only [unfold]
  split
  · exact hbelow (.traversal r c) (.lower rfl rfl List.suffix_rfl (by simp [Call.level]))
  · rename_i op c₁ hop
    have h₁ := (behind_nextIf? hop fun _ _ => isTrivia_of_unaryOp?).passed
    refine bind_congr_ok (hbelow (.unary r c₁) (.passed rfl rfl h₁)) ?_
    rintro ⟨operand, c₂⟩ _
    rfl

theorem unfold_traversal (hg : g.Consuming)
    (hbelow : ∀ y, Below y (.traversal r c) → g.AgreesAt h y) :
    g.unfold.traversal r c = h.unfold.traversal r c := by
  have hprimary : Below (.primary r c) (.traversal r c) :=
    .lower rfl rfl List.suffix_rfl (by simp [Call.level])
  simp only [unfold]
  refine bind_congr_ok (hbelow _ hprimary) ?_
  rintro ⟨root, c₁⟩ hroot
  refine bind_congr_ok (hbelow (.steps r c₁) (.passed rfl rfl (hg.primary hroot))) ?_
  rintro ⟨ss, c₂⟩ _
  rfl

theorem unfold_steps (hg : g.Consuming)
    (hbelow : ∀ y, Below y (.steps r c) → g.AgreesAt h y) :
    g.unfold.steps r c = h.unfold.steps r c := by
  simp only [unfold]
  split
  · -- The point has been read, whatever token comes behind it.
    rename_i c₁ hdot
    refine bind_congr_ok rfl ?_
    rintro ⟨found, c₂⟩ hnext
    have h₂ := (behind_eat? hdot).passed.trans_suffix (keeps_next hnext).suffix
    refine bind_congr_ok rfl fun first _ => ?_
    refine bind_congr_ok (hbelow (.steps r c₂) (.passed rfl rfl h₂)) ?_
    rintro ⟨rest, c₃⟩ _
    rfl
  · split
    · rfl
    · rename_i c₁ hopen
      have h₁ := (behind_eat? hopen).passed
      split
      · rename_i c₂ hsplat
        have h₂ := h₁.trans_suffix (behind_fullSplat? hsplat).suffix
        refine bind_congr_ok (hbelow (.steps r c₂) (.passed rfl rfl h₂)) ?_
        rintro ⟨rest, c₃⟩ _
        rfl
      · refine bind_congr_ok (hbelow (.expression r.inside c₁) (.passed rfl rfl h₁)) ?_
        rintro ⟨index, c₂⟩ hindex
        have h₂ := h₁.trans_suffix (hg.expression hindex).suffix
        refine bind_congr_ok rfl ?_
        rintro ⟨span, c₃⟩ hclose
        have h₃ := h₂.trans_suffix (behind_expect hclose).suffix
        refine bind_congr_ok (hbelow (.steps r c₃) (.passed rfl rfl h₃)) ?_
        rintro ⟨rest, c₄⟩ _
        rfl

theorem unfold_primary (hbelow : ∀ y, Below y (.primary r c) → g.AgreesAt h y) :
    g.unfold.primary r c = h.unfold.primary r c := by
  simp only [unfold]
  refine bind_congr_ok rfl ?_
  rintro ⟨found, c₁⟩ hnext
  -- The template in the token, if there is one, is below whatever else the call is for.
  have hmem : found ∈ c.tokens := Ready.mem_of_next hnext
  have hsegments := hbelow _ (.template r rfl hmem)
  unfold Located.segments at hsegments
  dsimp only
  split
  · rfl
  · rename_i raw htoken
    rw [htoken] at hsegments
    exact bind_congr_ok hsegments fun parts _ => rfl
  · rename_i text htoken
    rw [htoken] at hsegments
    exact bind_congr_ok hsegments fun parts _ => rfl
  · rename_i name htoken
    have h₁ := (behind_next hnext (by rw [htoken]; rfl)).passed
    split
    · rfl
    split
    · rfl
    split
    · rfl
    split
    · refine bind_congr_ok rfl ?_
      rintro ⟨span, c₂⟩ hopen
      have h₂ := h₁.trans_suffix (behind_expect hopen).suffix
      refine bind_congr_ok (hbelow (.arguments r.inside c₂) (.passed rfl rfl h₂)) ?_
      rintro ⟨args, expand, c₃⟩ _
      rfl
    · rfl
  · rename_i htoken
    have h₁ := (behind_next hnext (by rw [htoken]; rfl)).passed
    split
    · refine bind_congr_ok (hbelow (.comprehension r.inside false c₁) (.passed rfl rfl h₁)) ?_
      rintro ⟨loop, c₂⟩ _
      rfl
    · refine bind_congr_ok (hbelow (.tupleItems r.inside true c₁) (.passed rfl rfl h₁)) ?_
      rintro ⟨items, c₂⟩ _
      rfl
  · rename_i htoken
    have h₁ := (behind_next hnext (by rw [htoken]; rfl)).passed
    split
    · refine bind_congr_ok (hbelow (.comprehension r.inside true c₁) (.passed rfl rfl h₁)) ?_
      rintro ⟨loop, c₂⟩ _
      rfl
    · refine bind_congr_ok (hbelow (.objectItems r.inside true c₁) (.passed rfl rfl h₁)) ?_
      rintro ⟨items, c₂⟩ _
      rfl
  · rename_i htoken
    have h₁ := (behind_next hnext (by rw [htoken]; rfl)).passed
    refine bind_congr_ok (hbelow (.expression r.inside c₁) (.passed rfl rfl h₁)) ?_
    rintro ⟨inner, c₂⟩ _
    rfl
  · rfl

/-! ### Between brackets -/

theorem unfold_arguments (hg : g.Consuming)
    (hbelow : ∀ y, Below y (.arguments r c) → g.AgreesAt h y) :
    g.unfold.arguments r c = h.unfold.arguments r c := by
  have hexpression : Below (.expression r c) (.arguments r c) :=
    .lower rfl rfl List.suffix_rfl (by simp [Call.level])
  simp only [unfold]
  split
  · rfl
  · refine bind_congr_ok (hbelow _ hexpression) ?_
    rintro ⟨arg, c₁⟩ harg
    dsimp only
    split
    · rfl
    · split
      · rename_i c₂ hcomma
        have h₂ := (hg.expression harg).trans_suffix (behind_eat? hcomma).suffix
        refine bind_congr_ok (hbelow (.arguments r c₂) (.passed rfl rfl h₂)) ?_
        rintro ⟨args, expand, c₃⟩ _
        rfl
      · rfl

theorem unfold_tupleItems (hg : g.Consuming) {first : Bool}
    (hbelow : ∀ y, Below y (.tupleItems r first c) → g.AgreesAt h y) :
    g.unfold.tupleItems r first c = h.unfold.tupleItems r first c := by
  have hleading := (keeps_elementDecor (c := c) rfl).suffix
  have hexpression : Below (.expression r c.elementDecor.2) (.tupleItems r first c) :=
    .lower rfl rfl hleading (by simp [Call.level])
  simp only [unfold]
  split
  · rfl
  · refine bind_congr_ok (hbelow _ hexpression) ?_
    rintro ⟨value, c₁⟩ hvalue
    dsimp only
    split
    · rename_i c₂ hcomma
      have hnote := (keeps_sameLineComment (c := c₂) rfl).suffix.trans (behind_eat? hcomma).suffix
      have h₂ := ((hg.expression hvalue).mono hleading).trans_suffix hnote
      refine bind_congr_ok (hbelow (.tupleItems r false _) (.passed rfl rfl h₂)) ?_
      rintro ⟨items, c₃⟩ _
      rfl
    · rfl

theorem entryKey_congr (hexpression : g.expression r c = h.expression r c) :
    g.entryKey r c = h.entryKey r c := by
  unfold entryKey
  rw [hexpression]

theorem entryKey_suffix (hg : g.Consuming) {key : ObjectKey} {after : Cursor}
    (hkey : g.entryKey r c = .ok (key, after)) : after.tokens <:+ c.tokens := by
  unfold entryKey at hkey
  split at hkey
  · obtain ⟨⟨name, c₁⟩, hname, hpair⟩ := map_eq_ok.1 hkey
    obtain ⟨-, rfl⟩ := Prod.mk.inj hpair
    exact (keeps_expectIdent hname).suffix
  · obtain ⟨⟨e, c₁⟩, he, hpair⟩ := map_eq_ok.1 hkey
    obtain ⟨-, rfl⟩ := Prod.mk.inj hpair
    exact (hg.expression he).suffix

theorem unfold_objectItems (hg : g.Consuming) {first : Bool}
    (hbelow : ∀ y, Below y (.objectItems r first c) → g.AgreesAt h y) :
    g.unfold.objectItems r first c = h.unfold.objectItems r first c := by
  have hexpression {c' : Cursor} (hsuffix : c'.tokens <:+ c.tokens) :
      g.expression r c' = h.expression r c' :=
    hbelow (.expression r c') (.lower rfl rfl hsuffix (by simp [Call.level]))
  have hleading := (keeps_elementDecor (c := c) rfl).suffix
  simp only [unfold]
  split
  · rfl
  · refine bind_congr_ok (entryKey_congr (hexpression hleading)) ?_
    rintro ⟨key, c₁⟩ hkey
    have h₁ := (entryKey_suffix hg hkey).trans hleading
    refine bind_congr_ok rfl fun c₂ hseparator => ?_
    have h₂ := (keeps_expectKeySeparator hseparator).suffix.trans h₁
    refine bind_congr_ok (hexpression h₂) ?_
    rintro ⟨value, c₃⟩ hvalue
    -- The comma may be missing; the value pays for the next item.
    have hnote := (keeps_sameLineComment rfl).suffix.trans (keeps_optional r .comma c₃).suffix
    have h₃ := ((hg.expression hvalue).mono h₂).trans_suffix hnote
    refine bind_congr_ok (hbelow (.objectItems r false _) (.passed rfl rfl h₃)) ?_
    rintro ⟨rest, c₄⟩ _
    rfl

theorem loopKey_congr {asObject : Bool} (hexpression : g.expression r c = h.expression r c) :
    g.loopKey r asObject c = h.loopKey r asObject c := by
  unfold loopKey
  rw [hexpression]

theorem loopKey_suffix (hg : g.Consuming) {asObject : Bool} {key : Option Expr} {after : Cursor}
    (hkey : g.loopKey r asObject c = .ok (key, after)) : after.tokens <:+ c.tokens := by
  unfold loopKey at hkey
  split at hkey
  · obtain ⟨⟨e, c₁⟩, he, hkey⟩ := bind_eq_ok.1 hkey
    obtain ⟨⟨span, c₂⟩, harrow, hkey⟩ := bind_eq_ok.1 hkey
    obtain ⟨-, rfl⟩ := Prod.mk.inj (Except.ok.inj hkey)
    exact (keeps_expect harrow).suffix.trans (hg.expression he).suffix
  · obtain ⟨-, rfl⟩ := Prod.mk.inj (Except.ok.inj hkey)
    exact List.suffix_rfl

theorem loopFilter_congr (hexpression : ∀ {c' : Cursor}, c'.tokens <:+ c.tokens →
    g.expression r c' = h.expression r c') : g.loopFilter r c = h.loopFilter r c := by
  unfold loopFilter
  split
  · rename_i c₁ hword
    rw [hexpression (keeps_nextIf? hword fun _ _ => isTrivia_of_accepted rfl).suffix]
  · rfl

/-- Each expression of a `for` is on a lower level. -/
theorem unfold_comprehension (hg : g.Consuming) {asObject : Bool}
    (hbelow : ∀ y, Below y (.comprehension r asObject c) → g.AgreesAt h y) :
    g.unfold.comprehension r asObject c = h.unfold.comprehension r asObject c := by
  have hexpression {c' : Cursor} (hsuffix : c'.tokens <:+ c.tokens) :
      g.expression r c' = h.expression r c' :=
    hbelow (.expression r c') (.lower rfl rfl hsuffix (by simp [Call.level]))
  simp only [unfold]
  refine bind_congr_ok rfl fun c₁ hfor => bind_congr_ok rfl ?_
  rintro ⟨keyVar, valueVar, c₂⟩ hvariables
  refine bind_congr_ok rfl fun c₃ hin => ?_
  have h₃ := ((keeps_expectKeyword hin).suffix.trans (keeps_loopVariables hvariables).suffix).trans
    (keeps_expectKeyword hfor).suffix
  refine bind_congr_ok (hexpression h₃) ?_
  rintro ⟨collection, c₄⟩ hcollection
  refine bind_congr_ok rfl ?_
  rintro ⟨span, c₅⟩ hcolon
  have h₅ := ((keeps_expect hcolon).suffix.trans (hg.expression hcollection).suffix).trans h₃
  refine bind_congr_ok (loopKey_congr (hexpression h₅)) ?_
  rintro ⟨key, c₆⟩ hkey
  have h₆ := (loopKey_suffix hg hkey).trans h₅
  refine bind_congr_ok (hexpression h₆) ?_
  rintro ⟨value, c₇⟩ hvalue
  have hdots : (Parser.loopDots r asObject c₇).2.tokens <:+ c₇.tokens :=
    (Keeping.keeps_loopDots rfl).suffix
  have h₇ := (hdots.trans (hg.expression hvalue).suffix).trans h₆
  refine bind_congr_ok (loopFilter_congr fun hrest => hexpression (hrest.trans h₇)) ?_
  rintro ⟨condition, c₈⟩ _
  rfl

/-! ### Templates -/

theorem segmentPart_congr {segment : Segment}
    (hembedded : ∀ place expr, segment.embedded? = some (place, expr) →
      g.embedded place expr = h.embedded place expr) :
    g.segmentPart segment = h.segmentPart segment := by
  cases segment with
  | interpolation stripLeft stripRight offset text =>
      rw [segmentPart, segmentPart, hembedded offset text rfl]
  | directive head offset text tail => rw [segmentPart, segmentPart, hembedded offset text rfl]
  | _ => rfl

theorem unfold_template {segments : List Segment}
    (hbelow : ∀ y, Below y (.template r segments) → g.AgreesAt h y) :
    g.unfold.template r segments = h.unfold.template r segments := by
  cases segments with
  | nil => rfl
  | cons segment segments =>
      have hpart : g.segmentPart segment = h.segmentPart segment :=
        segmentPart_congr fun place expr hplace =>
          hbelow (.embedded place expr) (.text r segments hplace)
      simp only [unfold]
      refine bind_congr_ok hpart fun part _ => ?_
      exact bind_congr_ok (hbelow (.template r segments) (.segment r segment segments))
        fun parts _ => rfl

theorem unfold_embedded {offset : Nat} {text : List Char}
    (hbelow : ∀ y, Below y (.embedded offset text) → g.AgreesAt h y) :
    g.unfold.embedded offset text = h.unfold.embedded offset text := by
  simp only [unfold]
  refine bind_congr_ok rfl fun tokens htokens => ?_
  exact bind_congr_ok (hbelow _ (.tokens _ htokens)) fun _ _ => rfl

/-! ### Bodies -/

theorem unfold_labels {type : String} {tokens : List Located}
    (hbelow : ∀ y, Below y (.labels r type tokens) → g.AgreesAt h y) :
    g.unfold.labels r type tokens = h.unfold.labels r type tokens := by
  cases tokens with
  | nil => rfl
  | cons t ts =>
      have hlabels : g.labels r type ts = h.labels r type ts :=
        hbelow (.labels r type ts) (.passed rfl rfl ⟨[], t, rfl⟩)
      have hsegments := hbelow _ (.template r rfl List.mem_cons_self)
      unfold Located.segments at hsegments
      simp only [unfold, hlabels]
      split
      · rename_i raw htoken
        rw [htoken] at hsegments
        exact bind_congr_ok hsegments fun parts _ => rfl
      all_goals rfl

theorem unfold_body (hg : g.Consuming) {inBlock first : Bool} {gap : Gap}
    (hbelow : ∀ y, Below y (.body r inBlock first gap c) → g.AgreesAt h y) :
    g.unfold.body r inBlock first gap c = h.unfold.body r inBlock first gap c := by
  simp only [unfold]
  split
  · rfl
  · rename_i t ts htokens
    -- Newlines and comments are tokens here, and so is the name of an item.
    have hpassed {left : List Located} (hleft : left <:+ ts) : Passed c.tokens left :=
      Passed.trans_suffix ⟨[], t, htokens⟩ hleft
    split
    · exact hbelow (.body ..) (.passed rfl rfl (hpassed List.suffix_rfl))
    · exact hbelow (.body ..) (.passed rfl rfl (hpassed List.suffix_rfl))
    · exact hbelow (.body ..) (.passed rfl rfl (hpassed List.suffix_rfl))
    · refine bind_congr_ok (hbelow (.item ..) (.passed rfl rfl (hpassed List.suffix_rfl))) ?_
      rintro ⟨it, c₁⟩ hitem
      have h₁ := (keeps_sameLineComment (c := c₁) rfl).suffix.trans (hg.item hitem)
      refine bind_congr_ok rfl fun _ _ => ?_
      refine bind_congr_ok (hbelow (.body ..) (.passed rfl rfl (hpassed h₁))) ?_
      rintro ⟨rest, c₂⟩ _
      rfl
    · rfl

theorem unfold_item (hg : g.Consuming) {name : String} {start : Span}
    (hbelow : ∀ y, Below y (.item r name start c) → g.AgreesAt h y) :
    g.unfold.item r name start c = h.unfold.item r name start c := by
  simp only [unfold]
  split
  · rename_i c₁ hequals
    refine bind_congr_ok
      (hbelow (.expression r c₁) (.passed rfl rfl (behind_eat? hequals).passed)) ?_
    rintro ⟨value, c₂⟩ _
    rfl
  · -- A block can have no labels, so these are gone down to; its brace is read before its body.
    have hlabels : Below (.labels r name c.tokens) (.item r name start c) :=
      .lower rfl rfl List.suffix_rfl (by simp [Call.level])
    refine bind_congr_ok (hbelow _ hlabels) ?_
    rintro ⟨ls, ts⟩ hls
    refine bind_congr_ok rfl ?_
    rintro ⟨span, c₁⟩ hopen
    have h₁ := (behind_expect hopen).passed.mono (hg.labels hls)
    refine bind_congr_ok (hbelow (.body r true true {} c₁) (.passed rfl rfl h₁)) ?_
    rintro ⟨content, c₂⟩ _
    rfl

/-! ### All calls -/

variable {x : Call}

/-- What a function does depends on calls below only. -/
theorem unfold_agrees (hg : g.Consuming) (hbelow : ∀ y, Below y x → g.AgreesAt h y) :
    g.unfold.AgreesAt h.unfold x := by
  cases x with
  | expression r c => exact unfold_expression hg hbelow
  | binary r floor c => exact unfold_binary hg hbelow
  | operators r floor lhs c => exact unfold_operators hg hbelow
  | unary r c => exact unfold_unary hbelow
  | traversal r c => exact unfold_traversal hg hbelow
  | steps r c => exact unfold_steps hg hbelow
  | primary r c => exact unfold_primary hbelow
  | arguments r c => exact unfold_arguments hg hbelow
  | tupleItems r first c => exact unfold_tupleItems hg hbelow
  | objectItems r first c => exact unfold_objectItems hg hbelow
  | comprehension r asObject c => exact unfold_comprehension hg hbelow
  | template r segments => exact unfold_template hbelow
  | embedded offset text => exact unfold_embedded hbelow
  | labels r type tokens => exact unfold_labels hbelow
  | body r inBlock first gap c => exact unfold_body hg hbelow
  | item r name start c => exact unfold_item hg hbelow

end Grammar

end Parser
end Hcl
end ProviderMigration
