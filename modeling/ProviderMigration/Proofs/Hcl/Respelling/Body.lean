import ProviderMigration.Hcl.Parser.Body
import ProviderMigration.Proofs.Hcl.Content
import ProviderMigration.Proofs.Hcl.Respelling.Expr

/-!
# Respelling a body

Where a word is respelled in the text of a body, the items stay in their places
(`parseBody_respelt`). An item in which the word is nothing but a root becomes the one with that
root renamed, up to spans (`ItemRespelt.bare_eq`).
-/

namespace ProviderMigration
namespace Hcl
namespace Respelling

open Hcl.Parser (Cursor Region Gap)

variable {s : Respelling}

/-! ## Items -/

inductive LabelRespelt (s : Respelling) : Label → Label → Prop
  | quoted {text text' : String} (h : s.KeepsText text text') :
      LabelRespelt s (.quoted text) (.quoted text')
  | bare {name name' : String} (h : s.KeepsText name name') :
      LabelRespelt s (.bare name) (.bare name')

/-- An item of a body and what it becomes where the word is respelled. -/
inductive ItemRespelt (s : Respelling) : Item → Item → Prop
  | attr {key key' : String} {value value' : Expr} {decor decor' : Decor}
      (hkey : s.KeepsText key key') (hvalue : s.ExprRespelt value value')
      (hdecor : s.DecorRespelt decor decor')
      (span span' : Span) :
      ItemRespelt s (.attr ⟨key, value, decor, span⟩) (.attr ⟨key', value', decor', span'⟩)
  | block {type type' : String} {labels labels' : List Label} {items items' : List Item}
      {trailing trailing' : List String} {decor decor' : Decor} (htype : s.KeepsText type type')
      (hlabels : List.Forall₂ s.LabelRespelt labels labels')
      (hitems : List.Forall₂ (ItemRespelt s) items items')
      (htrailing : List.Forall₂ s.KeepsText trailing trailing')
      (hdecor : s.DecorRespelt decor decor') (span span' : Span) :
      ItemRespelt s (.block ⟨type, labels, ⟨items, trailing⟩, decor, span⟩)
        (.block ⟨type', labels', ⟨items', trailing'⟩, decor', span'⟩)

structure BodyRespelt (s : Respelling) (b b' : Body) : Prop where
  items : List.Forall₂ s.ItemRespelt b.items b'.items
  trailing : List.Forall₂ s.KeepsText b.trailing b'.trailing

theorem ItemRespelt.withDecor {item item' : Item} {d d' : Decor} (h : s.ItemRespelt item item')
    (hdecor : s.DecorRespelt d d') : s.ItemRespelt (item.withDecor d) (item'.withDecor d') := by
  cases h with
  | attr hkey hvalue _ span span' => exact .attr hkey hvalue hdecor span span'
  | block htype hlabels hitems htrailing _ span span' =>
      exact .block htype hlabels hitems htrailing hdecor span span'

theorem eq_of_labelsRespelt {labels labels' : List Label}
    (h : List.Forall₂ s.LabelRespelt labels labels')
    (havoids : ∀ label ∈ labels, Avoids s.word label.text) : labels' = labels := by
  have hmap := eq_map_of_forall₂ (f := id) h fun label hlabel label' hrespelt => by
    cases hrespelt with
    | quoted hkeeps => rw [hkeeps.eq (havoids _ hlabel), id]
    | bare hkeeps => rw [hkeeps.eq (havoids _ hlabel), id]
  rwa [List.map_id] at hmap

/-- An item in which the word is nothing but a root. -/
theorem ItemRespelt.bare_eq {item item' : Item} (h : s.ItemRespelt item item')
    (hroots : item.RootsOnly s.word) : item'.bare = (item.rename s.rootRenaming).value.bare := by
  induction hroots generalizing item' with
  | attr havoids hvalueRoots hdecorAvoids =>
      cases h with
      | attr hkey hvalue hdecor span span' =>
          rw [hkey.eq havoids, hvalue hvalueRoots, hdecor.eq hdecorAvoids, Item.value_rename_attr]
          rfl
  | block htypeAvoids hlabelsAvoid _ htrailingAvoids hdecorAvoids ih =>
      cases h with
      | block htype hlabels hitems htrailing hdecor span span' =>
          have hbare := map_eq_map_of_forall₂ hitems fun item hitem _ hrespelt =>
            ih item hitem hrespelt
          rw [htype.eq htypeAvoids, eq_of_labelsRespelt hlabels hlabelsAvoid,
            eq_of_keepsTexts htrailing htrailingAvoids, hdecor.eq hdecorAvoids,
            Item.value_rename_block, Block.value_rename, Body.value_rename, Item.bare, Item.bare,
            Block.bare, Block.withBody, Block.bare, Body.bare_mk, Body.bare_mk, hbare,
            List.map_map]
          rfl

theorem BodyRespelt.blocks {b b' : Body} (h : s.BodyRespelt b b') :
    List.Forall₂ (fun c c' => s.ItemRespelt (.block c) (.block c')) b.blocks b'.blocks := by
  refine List.rel_filterMap (fun item item' hitem => ?_) h.items
  cases hitem with
  | attr => exact .none
  | block htype hlabels hitems htrailing hdecor span span' =>
      exact .some (.block htype hlabels hitems htrailing hdecor span span')

theorem block_bare_eq {c c' : Block} (h : s.ItemRespelt (.block c) (.block c'))
    (hroots : c.RootsOnly s.word) : c'.bare = (c.rename s.rootRenaming).value.bare := by
  have hbare := h.bare_eq hroots
  rw [Item.value_rename_block, Item.bare, Item.bare] at hbare
  exact Item.block.inj hbare

/-! ## Labels -/

theorem literalText?_respelt {parts parts' : List TemplatePart} {text text' : String}
    (h : List.Forall₂ s.PartRespelt parts parts') (htext : literalText? parts = some text)
    (htext' : literalText? parts' = some text') : s.KeepsText text text' := by
  unfold literalText? at htext
  split at htext
  · obtain rfl := Option.some.inj htext
    rw [List.forall₂_nil_left_iff] at h
    rw [h] at htext'
    obtain rfl := Option.some.inj htext'
    exact .refl s ..
  · obtain rfl := Option.some.inj htext
    cases h with
    | cons hpart hrest =>
        cases hrest
        cases hpart with
        | literal hkeeps =>
            obtain rfl := Option.some.inj htext'
            exact hkeeps
  · cases htext

theorem labels_respelt {fuel fuel' : Nat} {r r' : Region} {type type' : String}
    {ts ts' : List Located} (h : List.Forall₂ s.LocatedRespelt ts ts') :
    Agree (fun x y => List.Forall₂ s.LabelRespelt x.1 y.1 ∧ List.Forall₂ s.LocatedRespelt x.2 y.2)
      (Parser.labels fuel r type ts) (Parser.labels fuel' r' type' ts') := by
  induction h with
  | nil => exact .error_left _ _
  | @cons t t' ts ts' ht hrest ih =>
      rcases t with ⟨token, span⟩
      rcases t' with ⟨token', span'⟩
      rw [Parser.labels, Parser.labels]
      have hopen := List.Forall₂.cons ht hrest
      cases ht with
      | quoted hfits =>
          refine ((s.readsAlike fuel).parts_of_raw hfits true _ _).bind ?_
          intro parts parts' hparts
          cases htext : literalText? parts with
          | none => exact .error_left _ _
          | some text =>
              cases htext' : literalText? parts' with
              | none => exact .error_right _ _
              | some text' =>
                  refine ih.bind ?_
                  rintro ⟨rest, ts₁⟩ ⟨rest', ts₁'⟩ ⟨hlabels, htokens⟩
                  exact .ok ⟨.cons (.quoted (literalText?_respelt hparts htext htext')) hlabels,
                    htokens⟩
      | ident hname =>
          refine ih.bind ?_
          rintro ⟨rest, ts₁⟩ ⟨rest', ts₁'⟩ ⟨hlabels, htokens⟩
          exact .ok ⟨.cons (.bare hname.keeps) hlabels, htokens⟩
      | symbol x =>
          cases x with
          | leftBrace => exact .ok ⟨.nil, hopen⟩
          | _ => exact .error_left _ _
      | _ => exact .error_left _ _

/-! ## Bodies -/

/-- What stands between two items. -/
structure GapRespelt (s : Respelling) (gap gap' : Gap) : Prop where
  comments : List.Forall₂ s.KeepsText gap.comments gap'.comments
  blankBeforeComments : gap'.blankBeforeComments = gap.blankBeforeComments
  newlines : gap'.newlines = gap.newlines

theorem GapRespelt.empty : s.GapRespelt {} {} :=
  ⟨.nil, rfl, rfl⟩

theorem GapRespelt.addNewline {gap gap' : Gap} (h : s.GapRespelt gap gap') :
    s.GapRespelt gap.addNewline gap'.addNewline :=
  ⟨h.comments, h.blankBeforeComments, by rw [Gap.addNewline, Gap.addNewline, h.newlines]⟩

theorem GapRespelt.separates_eq {gap gap' : Gap} (h : s.GapRespelt gap gap') :
    gap'.separates = gap.separates := by
  have hempty : gap'.comments.isEmpty = gap.comments.isEmpty := by
    rw [Bool.eq_iff_iff, List.isEmpty_iff_length_eq_zero, List.isEmpty_iff_length_eq_zero,
      h.comments.length_eq]
  rw [Gap.separates, Gap.separates, hempty, h.newlines, h.blankBeforeComments]

theorem GapRespelt.addComment {gap gap' : Gap} {text text' : String} (h : s.GapRespelt gap gap')
    (htext : s.KeepsText text text') : s.GapRespelt (gap.addComment text) (gap'.addComment text') :=
  ⟨List.rel_append h.comments (.cons htext .nil), h.separates_eq, rfl⟩

structure ReadsItemsAlike (s : Respelling) (fuel : Nat) : Prop where
  body : ∀ {fuel' r r' inBlock first gap gap' c c'}, r'.nested = r.nested → s.GapRespelt gap gap' →
    s.CursorRespelt c c' → Agree (s.WithCursor s.BodyRespelt)
      (Parser.body fuel r inBlock first gap c) (Parser.body fuel' r' inBlock first gap' c')
  item : ∀ {fuel' r r' name name' span span' c c'}, r'.nested = r.nested → s.KeepsText name name' →
    s.CursorRespelt c c' → Agree (s.WithCursor s.ItemRespelt) (Parser.item fuel r name span c)
      (Parser.item fuel' r' name' span' c')

namespace ReadsItemsAlike

variable {fuel fuel' : Nat} {r r' : Region} {c c' : Cursor}

theorem body_succ (k : s.ReadsItemsAlike fuel) {inBlock first : Bool} {gap gap' : Gap}
    (hr : r'.nested = r.nested) (hgap : s.GapRespelt gap gap') (hc : s.CursorRespelt c c') :
    Agree (s.WithCursor s.BodyRespelt) (Parser.body (fuel + 1) r inBlock first gap c)
      (Parser.body fuel' r' inBlock first gap' c') := by
  cases fuel' with
  | zero => exact .error_right _ _
  | succ fuel' =>
  rw [Parser.body, Parser.body]
  have htokens := hc.tokens
  cases hts : c.tokens with
  | nil =>
      rw [hts, List.forall₂_nil_left_iff] at htokens
      rw [htokens]
      dsimp only
      split
      · exact .error_left _ _
      · exact .ok ⟨⟨.nil, hgap.comments⟩, hc⟩
  | cons t ts =>
      rw [hts, List.forall₂_cons_left_iff] at htokens
      obtain ⟨t', ts', ht, hrest, hts'⟩ := htokens
      rw [hts']
      rcases t with ⟨token, span⟩
      rcases t' with ⟨token', span'⟩
      have hafter := hc.withTokens hrest span.stop span'.stop
      cases ht with
      | newline => exact k.body hr hgap.addNewline hafter
      | lineComment htext => exact k.body hr (hgap.addComment htext) hafter
      | blockComment htext => exact k.body hr (hgap.addComment htext) hafter
      | ident hname =>
          refine (k.item hr hname.keeps hafter).bind ?_
          rintro ⟨item, c₁⟩ ⟨item', c₁'⟩ ⟨hitem, hc₁⟩
          obtain ⟨htrailing, hc₂⟩ := sameLineComment_respelt hc₁
          refine Agree.bind (R := fun _ _ => True) (fun _ _ _ _ => trivial) fun _ _ _ => ?_
          -- The comments around the item are respelt one by one, and so is its decor.
          have hdecor : s.DecorRespelt
              ⟨gap.comments ++ c₁.sameLineComment.2.stray, c₁.sameLineComment.1,
                gap.separates && !first⟩
              ⟨gap'.comments ++ c₁'.sameLineComment.2.stray, c₁'.sameLineComment.1,
                gap'.separates && !first⟩ :=
            ⟨List.rel_append hgap.comments hc₂.stray, htrailing, by rw [hgap.separates_eq]⟩
          have hfresh : s.CursorRespelt { c₁.sameLineComment.2 with stray := [] }
              { c₁'.sameLineComment.2 with stray := [] } := ⟨hc₂.tokens, .nil⟩
          refine (k.body hr .empty hfresh).bind ?_
          rintro ⟨rest, c₃⟩ ⟨rest', c₃'⟩ ⟨hbody, hc₃⟩
          exact .ok ⟨⟨.cons (hitem.withDecor hdecor) hbody.items, hbody.trailing⟩, hc₃⟩
      | symbol x =>
          dsimp only
          split
          · exact .ok ⟨⟨.nil, hgap.comments⟩, hc⟩
          · exact .error_left _ _
      | _ => 
          simp only [reduceCtorEq, decide_false, Bool.and_false]
          exact .error_left _ _

theorem item_succ (k : s.ReadsItemsAlike fuel) {name name' : String} {span span' : Span}
    (hr : r'.nested = r.nested) (hname : s.KeepsText name name') (hc : s.CursorRespelt c c') :
    Agree (s.WithCursor s.ItemRespelt) (Parser.item (fuel + 1) r name span c)
      (Parser.item fuel' r' name' span' c') := by
  have hplain : s.DecorRespelt {} {} := ⟨.nil, .none, rfl⟩
  cases fuel' with
  | zero => exact .error_right _ _
  | succ fuel' =>
  rw [Parser.item, Parser.item]
  rcases optionRel_cases (eat?_respelt hc hr .equals) with
    ⟨hleft, hright⟩ | ⟨c₁, c₁', hleft, hright, hc₁⟩
  · rw [hleft, hright]
    refine (labels_respelt hc.tokens).bind ?_
    rintro ⟨labels, ts⟩ ⟨labels', ts'⟩ ⟨hlabels, hts⟩
    refine (expect_respelt (hc.withTokens hts ..) hr .leftBrace).bind ?_
    rintro ⟨start, c₁⟩ ⟨start', c₁'⟩ ⟨-, hc₁⟩
    refine (k.body hr .empty hc₁).bind ?_
    rintro ⟨⟨items, trailing⟩, c₂⟩ ⟨⟨items', trailing'⟩, c₂'⟩ ⟨hcontent, hc₂⟩
    refine (expect_respelt hc₂ hr .rightBrace).bind ?_
    rintro ⟨stop, c₃⟩ ⟨stop', c₃'⟩ ⟨-, hc₃⟩
    exact .ok ⟨.block hname hlabels hcontent.items hcontent.trailing hplain _ _, hc₃⟩
  · rw [hleft, hright]
    refine ((s.readsAlike fuel).expression hr hc₁).bind ?_
    rintro ⟨value, c₂⟩ ⟨value', c₂'⟩ ⟨hvalue, hc₂⟩
    exact .ok ⟨.attr hname hvalue hplain _ _, hc₂⟩

end ReadsItemsAlike

theorem readsItemsAlike (s : Respelling) (fuel : Nat) : s.ReadsItemsAlike fuel := by
  induction fuel with
  | zero => exact ⟨fun _ _ _ => .error_left _ _, fun _ _ _ => .error_left _ _⟩
  | succ fuel ih => exact ⟨ih.body_succ, ih.item_succ⟩

/-- Two files that are read, of which one is the other with the word respelled. -/
theorem parseBody_respelt {source : String} {b b' : Body} (hfits : s.Fits source.toList)
    (h : parseBody source = .ok b)
    (h' : parseBody (String.ofList (s.apply false source.toList)) = .ok b') :
    s.BodyRespelt b b' := by
  obtain ⟨tokens, after, htokens, hbody⟩ := parseBody_ok_iff.1 h
  obtain ⟨tokens', after', htokens', hbody'⟩ := parseBody_ok_iff.1 h'
  have hfree : false = true → ¬ s.old <+: source.toList := nofun
  obtain ⟨found, hfound, hrespelt⟩ := tokenizeAt_respelt hfits hfree htokens 0
  rw [String.toList_ofList, hfound] at htokens'
  obtain rfl := Except.ok.inj htokens'
  have hstart : s.CursorRespelt (.ofTokens tokens) (.ofTokens found) := ⟨hrespelt, .nil⟩
  refine ((s.readsItemsAlike _).body ?nested .empty hstart _ _ hbody hbody').1
  case nested => rfl

end Respelling

end Hcl
end ProviderMigration
