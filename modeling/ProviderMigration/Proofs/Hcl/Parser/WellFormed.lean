import ProviderMigration.Hcl.Body
import ProviderMigration.Proofs.Hcl.Parser.Comment
import ProviderMigration.Proofs.Hcl.Token.Comment

/-!
# What is read is well-formed

The names in a body that was read are words and its comments are the texts of comments, since they
were read from tokens. `Body.WellFormed` says so of a body, and that its values are of a kind that
is left open.

The parser takes names and comments from the tokens as they are (`wellFormed_parseBody`). That the
tokens left over are some of those there were, whatever expression was read in between, is part of
`Keeps`.
-/

namespace ProviderMigration
namespace Hcl

structure Decor.WellFormed (d : Decor) : Prop where
  leading : ∀ text ∈ d.leading, IsComment text
  trailing : ∀ text ∈ d.trailing, IsComment text

inductive Item.WellFormed (kind : Expr → Prop) : Item → Prop
  | attr {a : Attribute} (hkey : IsName a.key) (hvalue : kind a.value)
      (hdecor : a.decor.WellFormed) : Item.WellFormed kind (.attr a)
  | block {b : Block} (htype : IsName b.type)
      (hlabels : ∀ name, .bare name ∈ b.labels → IsName name)
      (hitems : ∀ item ∈ b.body.items, Item.WellFormed kind item)
      (htrailing : ∀ text ∈ b.body.trailing, IsComment text) (hdecor : b.decor.WellFormed) :
      Item.WellFormed kind (.block b)

structure Body.WellFormed (kind : Expr → Prop) (b : Body) : Prop where
  items : ∀ item ∈ b.items, item.WellFormed kind
  trailing : ∀ text ∈ b.trailing, IsComment text

section
variable {kind : Expr → Prop} {item : Item}

theorem Decor.WellFormed.empty : Decor.WellFormed {} :=
  ⟨nofun, nofun⟩

theorem Item.WellFormed.decor (h : item.WellFormed kind) : item.decor.WellFormed := by
  cases h with
  | attr _ _ hdecor => exact hdecor
  | block _ _ _ _ hdecor => exact hdecor

theorem Item.WellFormed.withDecor (h : item.WellFormed kind) {d : Decor} (hd : d.WellFormed) :
    (item.withDecor d).WellFormed kind := by
  cases h with
  | attr hkey hvalue => exact .attr hkey hvalue hd
  | block htype hlabels hitems htrailing => exact .block htype hlabels hitems htrailing hd

end

/-! ## Values -/

mutual

/-- The values of the attributes in a body, also of those in its blocks. -/
def Body.values : Body → List Expr
  | ⟨items, _⟩ => itemValues items

def itemValues : List Item → List Expr
  | [] => []
  | item :: items => item.values ++ itemValues items

def Item.values : Item → List Expr
  | .attr a => [a.value]
  | .block b => b.values

def Block.values : Block → List Expr
  | ⟨_, _, body, _, _⟩ => body.values

end

theorem mem_itemValues {items : List Item} {item : Item} (hitem : item ∈ items) {e : Expr}
    (he : e ∈ item.values) : e ∈ itemValues items := by
  induction items with
  | nil => simp at hitem
  | cons head items ih =>
      rw [itemValues, List.mem_append]
      rcases List.mem_cons.1 hitem with rfl | hitem
      · exact .inl he
      · exact .inr (ih hitem)

theorem Block.values_eq (b : Block) : b.values = itemValues b.body.items := by
  rcases b with ⟨type, labels, ⟨items, trailing⟩, decor, span⟩
  rw [Block.values, Body.values]

theorem Body.values_eq (b : Body) : b.values = itemValues b.items := by
  rcases b with ⟨items, trailing⟩
  rw [Body.values]

/-- The kind of the values is a matter of the values alone. -/
theorem Item.WellFormed.of_values {kind kind' : Expr → Prop} {item : Item}
    (h : item.WellFormed kind) (hvalues : ∀ e ∈ item.values, kind' e) :
    item.WellFormed kind' := by
  induction h with
  | attr hkey _ hdecor => exact .attr hkey (hvalues _ (by simp [Item.values])) hdecor
  | @block b htype hlabels hitems htrailing hdecor ih =>
      rw [Item.values, Block.values_eq] at hvalues
      exact .block htype hlabels
        (fun item hitem => ih item hitem fun e he => hvalues e (mem_itemValues hitem he))
        htrailing hdecor

theorem Body.WellFormed.of_values {kind kind' : Expr → Prop} {b : Body} (h : b.WellFormed kind)
    (hvalues : ∀ e ∈ b.values, kind' e) : b.WellFormed kind' := by
  rw [Body.values_eq] at hvalues
  exact ⟨fun item hitem =>
    (h.items item hitem).of_values fun e he => hvalues e (mem_itemValues hitem he), h.trailing⟩

namespace Parser

/-- The tokens to be read are well-formed, and the comments put aside are comments. -/
structure Cursor.WellFormed (c : Cursor) : Prop where
  tokens : ∀ t ∈ c.tokens, t.token.WellFormed
  stray : ∀ text ∈ c.stray, IsComment text

section
variable {c after : Cursor} {kept : List String} {gap : Gap}

theorem Cursor.WellFormed.comments (h : c.WellFormed) : ∀ text ∈ c.comments, IsComment text := by
  intro text htext
  rcases List.mem_append.1 htext with hstray | htoken
  · exact h.stray text hstray
  · obtain ⟨t, ht, hcomment⟩ := List.mem_filterMap.1 htoken
    exact (h.tokens t ht).isComment hcomment

theorem Keeps.wellFormed (h : Keeps c kept after) (hc : c.WellFormed) : after.WellFormed := by
  refine ⟨fun t ht => hc.tokens t (h.suffix.subset ht), fun text htext => ?_⟩
  refine hc.comments text (h.perm.subset ?_)
  exact List.mem_append_right _ (List.mem_append_left _ htext)

theorem Keeps.isComment (h : Keeps c kept after) (hc : c.WellFormed) :
    ∀ text ∈ kept, IsComment text :=
  fun text htext => hc.comments text (h.perm.subset (List.mem_append_left _ htext))

theorem Cursor.WellFormed.before (h : c.WellFormed) (hgap : ∀ text ∈ gap.comments, IsComment text) :
    (c.before gap).WellFormed :=
  ⟨h.tokens, List.forall_mem_append.2 ⟨hgap, h.stray⟩⟩

end

theorem isName_of_labels {fuel : Nat} {r : Region} {type : String} {tokens rest : List Located}
    {ls : List Label} (htokens : ∀ t ∈ tokens, t.token.WellFormed)
    (h : labels fuel r type tokens = .ok (ls, rest)) : ∀ name, .bare name ∈ ls → IsName name := by
  rw [labels_ok_iff] at h
  induction h with
  | done => simp
  | quoted _ _ _ _ ih => simpa using ih (List.forall_mem_cons.1 htokens).2
  | bare htoken _ ih =>
      obtain ⟨ht, hts⟩ := List.forall_mem_cons.1 htokens
      intro name hname
      rcases List.mem_cons.1 hname with hfound | hname
      · obtain rfl := Label.bare.inj hfound
        rwa [htoken] at ht
      · exact ih hts name hname

/-- What the functions for bodies read, with some fuel, from well-formed tokens. -/
structure ReadsWellFormed (fuel : Nat) : Prop where
  body : ∀ {r inBlock first gap c b after}, c.WellFormed →
    (∀ text ∈ gap.comments, IsComment text) → body fuel r inBlock first gap c = .ok (b, after) →
    b.WellFormed fun _ => True
  item : ∀ {r name span c it after}, c.WellFormed → IsName name →
    item fuel r name span c = .ok (it, after) → it.WellFormed fun _ => True

namespace ReadsWellFormed

variable {fuel : Nat} {r : Region} {c after : Cursor}

theorem body_succ (k : ReadsWellFormed fuel) {inBlock first : Bool} {gap : Gap} {b : Body}
    (hc : c.WellFormed) (hgap : ∀ text ∈ gap.comments, IsComment text)
    (h : Parser.body (fuel + 1) r inBlock first gap c = .ok (b, after)) :
    b.WellFormed fun _ => True := by
  have htoken {t : Located} {ts : List Located} (htokens : c.tokens = t :: ts) :
      t.token.WellFormed := hc.tokens t (by simp [htokens])
  cases body_ok_iff.1 h with
  | ended | closed => exact ⟨by simp, hgap⟩
  | newline htokens _ hrest =>
      have hline : ∀ text ∈ gap.addNewline.comments, IsComment text := hgap
      exact k.body ((keeps_tail htokens _).wellFormed hc) hline hrest
  | comment htokens htext hrest =>
      have hcomment := (htoken htokens).isComment htext
      exact k.body ((keeps_tail htokens _).wellFormed hc)
        (List.forall_mem_append.2 ⟨hgap, List.forall_mem_singleton.2 hcomment⟩) hrest
  | @item t _ name _ _ _ _ c₂ _ htokens hident hitem htrailing _ hrest =>
      have hname : IsName name := by
        have ht := htoken htokens
        rwa [hident] at ht
      have hafter := (keeps_tail htokens t.span.stop).wellFormed hc
      have hc₁ := ((keepingItems fuel).item hitem).2.wellFormed hafter
      have hkept := keeps_sameLineComment htrailing
      have hc₂ := hkept.wellFormed hc₁
      have hfresh : ({ c₂ with stray := [] } : Cursor).WellFormed :=
        ⟨hc₂.tokens, List.forall_mem_nil _⟩
      have hread := k.item hafter hname hitem
      have hreadRest := k.body hfresh (List.forall_mem_nil _) hrest
      refine ⟨List.forall_mem_cons.2 ⟨hread.withDecor ⟨?_, ?_⟩, hreadRest.items⟩,
        hreadRest.trailing⟩
      · exact List.forall_mem_append.2 ⟨hgap, hc₂.stray⟩
      · intro text htext
        exact hkept.isComment hc₁ text (Option.mem_toList.2 htext)

theorem item_succ (k : ReadsWellFormed fuel) {name : String} {span : Span} {it : Item}
    (hc : c.WellFormed) (hname : IsName name)
    (h : Parser.item (fuel + 1) r name span c = .ok (it, after)) :
    it.WellFormed fun _ => True := by
  cases item_ok_iff.1 h with
  | attr => exact .attr hname trivial .empty
  | @block _ ts _ _ _ _ _ _ _ hlabels hopen hcontent =>
      have hts : (Cursor.mk ts c.stray c.last).WellFormed :=
        ⟨fun t ht => hc.tokens t ((labels_comment hlabels).2.subset ht), hc.stray⟩
      have hread := k.body ((keeps_expect hopen).wellFormed hts) (List.forall_mem_nil _) hcontent
      exact .block hname (isName_of_labels hc.tokens hlabels) hread.items hread.trailing .empty

theorem zero : ReadsWellFormed 0 where
  body _ _ h := by simp [Parser.body] at h
  item _ _ h := by simp [Parser.item] at h

end ReadsWellFormed

theorem readsWellFormed (fuel : Nat) : ReadsWellFormed fuel := by
  induction fuel with
  | zero => exact .zero
  | succ fuel ih => exact ⟨ih.body_succ, ih.item_succ⟩

end Parser

/-- The body that a source text consists of is well-formed. -/
theorem wellFormed_parseBody {source : String} {b : Body} (h : parseBody source = .ok b) :
    b.WellFormed fun _ => True := by
  obtain ⟨tokens, after, htokens, hbody⟩ := parseBody_ok_iff.1 h
  have hstart : (Parser.Cursor.ofTokens tokens).WellFormed :=
    ⟨wellFormed_of_tokenizeAt htokens, List.forall_mem_nil _⟩
  exact (Parser.readsWellFormed _).body hstart (List.forall_mem_nil _) hbody

end Hcl
end ProviderMigration
