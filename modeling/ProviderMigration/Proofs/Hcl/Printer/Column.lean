import ProviderMigration.Proofs.Hcl.Passage
import ProviderMigration.Proofs.Hcl.Printer.Alignment
import ProviderMigration.Proofs.Hcl.Span

/-!
# Columns of equals signs

In a printed body, the equals signs of a run stand in one column. The text in front of an item ends
with a line break, so an equals sign is as far to the right as the indentation and the padded key
are wide.

* `textInFront`, `stem` — what is printed before an equals sign;
* `Run.render_eq` — the attribute of a run in the text of the body;
* `Run.column_eq` — its equals sign stands in the column of the run.
-/

namespace ProviderMigration
namespace Hcl

open Printer
open Text (byteLength padRight)

variable {depth : Nat} {items : List Item}

/-! ## Columns in a text -/

/-- On its own line, a text moves the position by its characters. -/
theorem column_foldl (p : Position) {text : List Char} (h : '\n' ∉ text) :
    (text.foldl Position.next p).column = p.column + text.length := by
  induction text generalizing p with
  | nil => rfl
  | cons c text ih =>
      obtain ⟨hc, htext⟩ := not_or.1 (List.mem_cons.not.1 h)
      have hnext : p.next c = ⟨p.line, p.column + 1⟩ := if_neg (by simpa using Ne.symm hc)
      rw [List.foldl_cons, ih _ htext, hnext, List.length_cons, Nat.add_assoc, Nat.add_comm 1]

/-- The text is empty or ends with a line break. -/
def EndsLines (text : String) : Prop :=
  text = "" ∨ ∃ front, text = front ++ "\n"

theorem EndsLines.append {text text' : String} (h : EndsLines text) (h' : EndsLines text') :
    EndsLines (text ++ text') := by
  rcases h' with rfl | ⟨front, rfl⟩
  · rwa [String.append_empty]
  · exact .inr ⟨text ++ front, String.append_assoc.symm⟩

/-- Behind whole lines, the column tells how many characters of the line come before. -/
theorem EndsLines.column_eq {text line : String} (h : EndsLines text) (hline : '\n' ∉ line.toList)
    (after : String) :
    (Position.ofOffset (text ++ line ++ after) (byteLength (text ++ line).toList)).column =
      line.length + 1 := by
  have hstart : (text.toList.foldl Position.next .origin).column = 1 := by
    rcases h with rfl | ⟨front, rfl⟩
    · rfl
    · rw [String.toList_append, List.foldl_append]
      rfl
  rw [Position.ofOffset, String.toList_append, advance_append, String.toList_append,
    List.foldl_append, column_foldl _ hline, hstart, String.length_toList, Nat.add_comm]

/-! ## What is printed in front of an item -/

/-- The items before an item, and the blank line and the comments before its own line. -/
def textInFront (depth : Nat) (widths : List Nat) (front : List Item) (item : Item) : String :=
  renderItems depth none front widths ++
    (if blankAfter depth front.getLast? item then "\n" else "") ++ comments depth item.decor.leading

theorem endsLines_comments (depth : Nat) (texts : List String) :
    EndsLines (comments depth texts) := by
  induction texts with
  | nil => exact .inl rfl
  | cons text texts ih => exact EndsLines.append (.inr ⟨indent depth ++ text, rfl⟩) ih

theorem endsLines_items (depth : Nat) (previous : Option Item) (items : List Item)
    (widths : List Nat) : EndsLines (renderItems depth previous items widths) := by
  induction items generalizing previous widths with
  | nil =>
      rw [renderItems]
      exact .inl rfl
  | cons item items ih =>
      rw [renderItems]
      exact EndsLines.append (.inr ⟨_, rfl⟩) (ih _ _)

theorem endsLines_textInFront (depth : Nat) (widths : List Nat) (front : List Item) (item : Item) :
    EndsLines (textInFront depth widths front item) := by
  refine ((endsLines_items ..).append ?_).append (endsLines_comments ..)
  split
  · exact .inr ⟨"", rfl⟩
  · exact .inl rfl

theorem renderItems_append (depth : Nat) (previous : Option Item) (front rest : List Item)
    (widths : List Nat) :
    renderItems depth previous (front ++ rest) widths = renderItems depth previous front widths ++
      renderItems depth (front.getLast?.or previous) rest (widths.drop front.length) := by
  induction front generalizing previous widths with
  | nil => rw [renderItems, String.empty_append]; rfl
  | cons item front ih =>
      have hlast : (item :: front).getLast?.or previous = front.getLast?.or (some item) := by
        rw [List.getLast?_cons]
        cases front.getLast? <;> rfl
      rw [List.cons_append, renderItems, renderItems, ih, hlast, List.length_cons,
        ← List.drop_one, List.drop_drop, Nat.add_comm front.length]
      simp only [String.append_assoc]

/-- A body is printed with each item behind the text in front of it. -/
theorem render_split (depth : Nat) (front : List Item) (item : Item) (back : List Item)
    (trailing : List String) :
    ∃ after, Body.render depth ⟨front ++ item :: back, trailing⟩ =
      textInFront depth (alignmentWidths (front ++ item :: back) depth) front item ++
        item.render ((alignmentWidths (front ++ item :: back) depth).getD front.length 0) depth ++
        after := by
  refine ⟨"\n" ++ (renderItems depth (some item) back
    ((alignmentWidths (front ++ item :: back) depth).drop front.length).tail ++
      comments depth trailing), ?_⟩
  rw [Body.render, renderItems_append, renderItems, Option.or_none, textInFront,
    List.headD_eq_head?_getD, List.head?_drop, ← List.getD_eq_getElem?_getD]
  simp only [blankAfter, String.append_assoc]
  rfl

/-! ## Equals signs -/

/-- The line of an attribute up to its equals sign. -/
def stem (depth width : Nat) (a : Attribute) : String :=
  indent depth ++ padRight a.key width ++ " "

theorem length_times (s : String) (count : Nat) : (Text.times s count).length = count * s.length := by
  induction count with
  | zero => simp [Text.times]
  | succ count ih => rw [Text.times, String.length_append, ih, Nat.succ_mul, Nat.add_comm]

theorem length_stem {width : Nat} {a : Attribute} (h : a.key.length ≤ width) :
    (stem depth width a).length = 2 * depth + width + 1 := by
  have hindent : (indent depth).length = 2 * depth := by
    rw [indent, length_times]
    exact Nat.mul_comm depth 2
  have hkey : (padRight a.key width).length = width := by
    rw [padRight, String.length_append, length_times, show " ".length = 1 from rfl, Nat.mul_one,
      Nat.add_sub_cancel' h]
  rw [stem, String.length_append, String.length_append, hindent, hkey]
  rfl

theorem mem_times {s : String} {c : Char} {count : Nat} (h : c ∈ (Text.times s count).toList) :
    c ∈ s.toList := by
  induction count with
  | zero => simp [Text.times] at h
  | succ count ih =>
      rw [Text.times, String.toList_append, List.mem_append] at h
      exact h.elim id ih

/-- A key without a line break is on one line with its equals sign. -/
theorem lineFeed_not_mem_stem {a : Attribute} (h : '\n' ∉ a.key.toList) (depth width : Nat) :
    '\n' ∉ (stem depth width a).toList := by
  intro hmem
  simp only [stem, indent, padRight, String.toList_append, List.mem_append] at hmem
  rcases hmem with (hmem | hmem | hmem) | hmem
  · exact absurd (mem_times hmem) (by decide)
  · exact h hmem
  · exact absurd (mem_times hmem) (by decide)
  · exact absurd hmem (by decide)

namespace Printer.Run

variable (r : Run depth items) {i : Nat} {a : Attribute}

/-- What the body prints before the equals sign of the attribute of that index. -/
def textBefore (i : Nat) (a : Attribute) : String :=
  textInFront depth (alignmentWidths items depth) (items.take i) (.attr a) ++ stem depth r.width a

/-- Behind that text, the body prints the equals sign and the value. -/
theorem render_eq (hi : r.Holds i) (ha : items[i]? = some (.attr a)) (trailing : List String) :
    ∃ after, Body.render depth ⟨items, trailing⟩ =
      r.textBefore i a ++ ("= " ++ a.value.render depth ++ after) := by
  obtain ⟨hitems, hlength⟩ := split_of_getElem? ha
  obtain ⟨after, hrender⟩ :=
    render_split depth (items.take i) (.attr a) (items.drop (i + 1)) trailing
  have hwidth : (alignmentWidths items depth).getD i 0 = r.width := by
    rw [List.getD_eq_getElem?_getD, r.alignmentWidths_getElem? hi, Option.getD_some]
  rw [← hitems, hlength, hwidth, Item.render, attributeLine] at hrender
  refine ⟨trailingDecor a.decor a.value.isHeredoc depth ++ after, ?_⟩
  rw [hrender, textBefore, stem]
  simp only [String.append_assoc]
  rfl

theorem stem_length (hi : r.Holds i) (ha : items[i]? = some (.attr a)) :
    (stem depth r.width a).length = 2 * depth + r.width + 1 :=
  length_stem (r.isGreatest_width.2 ⟨a, r.mem_of_holds hi ha, rfl⟩)

/-- The equals signs of a run stand in one column. -/
theorem column_eq (hi : r.Holds i) (ha : items[i]? = some (.attr a)) (hkey : '\n' ∉ a.key.toList)
    (trailing : List String) :
    (Position.ofOffset (Body.render depth ⟨items, trailing⟩)
      (byteLength (r.textBefore i a).toList)).column = 2 * depth + r.width + 2 := by
  obtain ⟨after, hrender⟩ := r.render_eq hi ha trailing
  rw [hrender, textBefore,
    (endsLines_textInFront ..).column_eq (lineFeed_not_mem_stem hkey _ _), r.stem_length hi ha]

end Printer.Run

/-- Every item has a key width: zero if it stands alone, and else that of the widest key of its run,
the only run that it is in. The items in front of a run and those behind it have the widths that
they have without it. In the printed body, an equals sign of a run comes behind whole lines and as
many characters of its own line as the others of the run, so they stand in one column. (A name has
no line break; a key that had one would begin its line anew.) -/
theorem alignment_of_runs (depth : Nat) (items : List Item) (trailing : List String) :
    (alignmentWidths items depth).length = items.length ∧
    (∀ (i : Nat) (item : Item), items[i]? = some item → StandsAlone depth item →
      (alignmentWidths items depth)[i]? = some 0) ∧
    (∀ (i : Nat) (item : Item), items[i]? = some item → ¬ StandsAlone depth item →
      ∃! r : Run depth items, r.Holds i) ∧
    ∀ r : Run depth items,
      IsGreatest {n | ∃ a ∈ r.attributes, a.key.length = n} r.width ∧
      (∀ i, r.Holds i → (alignmentWidths items depth)[i]? = some r.width) ∧
      alignmentWidths items depth = alignmentWidths r.front depth ++
        List.replicate r.attributes.length r.width ++ alignmentWidths r.back depth ∧
      ∀ (i : Nat) (a : Attribute), r.Holds i → items[i]? = some (.attr a) →
        (∃ after, Body.render depth ⟨items, trailing⟩ =
          r.textBefore i a ++ ("= " ++ a.value.render depth ++ after)) ∧
        (∃ lines, EndsLines lines ∧ r.textBefore i a = lines ++ stem depth r.width a ∧
          (stem depth r.width a).length = 2 * depth + r.width + 1) ∧
        ('\n' ∉ a.key.toList →
          (Position.ofOffset (Body.render depth ⟨items, trailing⟩)
            (byteLength (r.textBefore i a).toList)).column = 2 * depth + r.width + 2) := by
  refine ⟨alignmentWidths_length items depth, fun i item => alignmentWidths_of_standsAlone,
    fun i item hitem halone => ?_, fun r => ⟨r.isGreatest_width,
      fun i => r.alignmentWidths_getElem?, r.alignmentWidths_eq, fun i a hi ha => ⟨?_, ?_, ?_⟩⟩⟩
  · obtain ⟨r, hr⟩ := exists_run hitem halone
    exact ⟨r, hr, fun r' hr' => Run.ext_of_holds hr' hr⟩
  · exact r.render_eq hi ha trailing
  · exact ⟨_, endsLines_textInFront .., rfl, r.stem_length hi ha⟩
  · exact fun hkey => r.column_eq hi ha hkey trailing

/-- A block, two runs that a blank line parts, and a value of several lines before a third. -/
def partedItems : List Item :=
  let assign (key : String) (value : Expr) (blank : Bool) : Item :=
    .attr { key, value, decor := { blankBefore := blank } }
  [.block ⟨"lifecycle", [], Body.empty, {}, ⟨0, 0⟩⟩,
    assign "id" (.number "1") false,
    assign "name" (.var "local") true,
    assign "protocol" (.number "2") false,
    assign "labels" (.heredoc ⟨"EOT", false, [], ""⟩) false,
    assign "port" (.number "3") false]

theorem alignment_of_runs_parted : alignmentWidths partedItems 1 = [0, 2, 8, 8, 0, 4] ∧
    ∃ r : Run 1 partedItems, r.Holds 2 ∧ r.width = 8 ∧
      ∃ a, partedItems[2]? = some (.attr a) ∧
        (Position.ofOffset (Body.render 1 ⟨partedItems, []⟩)
          (byteLength (r.textBefore 2 a).toList)).column = 12 := by
  have hwidths : alignmentWidths partedItems 1 = [0, 2, 8, 8, 0, 4] := by decide +kernel
  obtain ⟨-, -, hruns, hexact⟩ := alignment_of_runs 1 partedItems []
  obtain ⟨r, hr, -⟩ := hruns 2 _ rfl (by decide +kernel)
  obtain ⟨-, hwidth, -, hprinted⟩ := hexact r
  have hr8 : r.width = 8 := by simpa [hwidths] using (hwidth 2 hr).symm
  have hcolumn := (hprinted 2 _ hr rfl).2.2 (by decide)
  exact ⟨hwidths, r, hr, hr8, _, rfl, by rw [hcolumn, hr8]⟩

end Hcl
end ProviderMigration
