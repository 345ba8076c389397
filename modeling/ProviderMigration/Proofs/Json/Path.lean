import ProviderMigration.Json.Path
import ProviderMigration.Proofs.Json.Field
import ProviderMigration.Proofs.Text.Join
import Mathlib.Data.List.TakeWhile

/-!
# Laws of paths

What is put at a path is read there, what is taken away was there, and no other path sees it. A
walk that ends early has created nothing: once a member was missing, everything below it is created
and the walk goes through.

* `segments_ofPath` — a path as its container and its last segment;
* `Value.Parts` — two paths that select different children somewhere;
* `select?_putIn`, `select?_putIn_of_parts`, `putIn_of_not_done` — what putting a value does;
* `exists_updateIn?` — a change of the value that a path selects;
* `Value.path_laws` — the laws of reading, putting and taking.
-/

namespace ProviderMigration
namespace Json

/-! ## Segments -/

/-- The segments of a path that does not start with an empty one. -/
theorem segments_ofPath {path : String}
    (h : (Text.splitAtEach '.' path.toList).head? ≠ some []) :
    pathSegments path.toList = (Place.ofPath path).container ++ [(Place.ofPath path).segment] := by
  have hne : path.toList ≠ [] := by
    intro hnil
    rw [hnil] at h
    exact h rfl
  have hsegments : pathSegments path.toList =
      (Text.splitAtEach '.' path.toList).map String.ofList := by
    rw [pathSegments, if_neg (by simpa using hne)]
  -- The text up to the last point, if there is one, and the segment after it, both from the end.
  let last := path.toList.reverse.takeWhile (· != '.')
  let front := path.toList.reverse.dropWhile (· != '.')
  have hreverse : path.toList.reverse = last ++ front :=
    (List.takeWhile_append_dropWhile).symm
  have hpath : path.toList = front.reverse ++ last.reverse := by
    rw [← List.reverse_append, ← hreverse, List.reverse_reverse]
  have hlast : '.' ∉ last.reverse := by
    rw [List.mem_reverse]
    intro hmem
    simpa using List.mem_takeWhile_imp hmem
  have hplace : Place.ofPath path =
      ⟨pathSegments (front.drop 1).reverse, String.ofList last.reverse⟩ := by
    have hdrop : path.toList.reverse.drop (last.length + 1) = front.drop 1 := by
      rw [hreverse, List.drop_append]
      simp
    simp only [Place.ofPath, ← hdrop, last]
  rw [hplace]
  cases hfront : front with
  | nil =>
      rw [hsegments, hpath, hfront, List.reverse_nil, List.nil_append,
        Text.splitAtEach_of_not_mem hlast]
      rfl
  | cons c rest =>
      obtain rfl : c = '.' := by
        have hhead := List.head?_dropWhile_not (· != '.') path.toList.reverse
        have hfront' : path.toList.reverse.dropWhile (· != '.') = c :: rest := hfront
        rw [hfront', List.head?_cons] at hhead
        simpa using hhead
      have hsplit : path.toList = rest.reverse ++ '.' :: last.reverse := by
        rw [hpath, hfront, List.reverse_cons, List.append_assoc]
        rfl
      have hrest : rest.reverse ≠ [] := by
        intro hnil
        rw [hsplit, hnil] at h
        exact h rfl
      rw [hsegments, hsplit, Text.splitAtEach_append_cons, Text.splitAtEach_of_not_mem hlast,
        List.map_append, List.drop_one, List.tail_cons, pathSegments, if_neg (by simpa using hrest)]
      rfl

namespace Value

variable {v w c child : Value} {s t : String}

/-! ## Children -/

/-- Two segments select different children: other members of an object, or other items of an
array. -/
def Apart : Value → String → String → Prop
  | .object _, s, t => s ≠ t
  | .array _, s, t => index? s ≠ index? t
  | _, _, _ => False

theorem child?_of_not_apart (h : ¬ v.Apart s t) : v.child? t = v.child? s := by
  cases v with
  | object ms => rw [not_ne_iff.1 h]
  | array items => rw [child?, child?, not_ne_iff.1 h]
  | _ => rfl

theorem childOrEmpty?_of_child? (h : v.child? s = some c) : v.childOrEmpty? s = some c := by
  cases v with
  | object ms =>
      have hget : Members.get? ms s = some c := h
      rw [childOrEmpty?, hget, Option.getD_some]
  | _ => exact h

/-- A child that is not there is taken for the empty object. -/
theorem childOrEmpty?_eq_some (h : v.childOrEmpty? s = some c) :
    v.child? s = some c ∨ v.child? s = none ∧ c = .object [] := by
  cases v with
  | object ms =>
      rw [childOrEmpty?] at h
      cases hget : Members.get? ms s with
      | some d =>
          rw [hget, Option.getD_some] at h
          exact .inl (hget.trans h)
      | none =>
          rw [hget, Option.getD_none] at h
          exact .inr ⟨hget, (Option.some.inj h).symm⟩
  | _ => exact .inl h

theorem exists_setChild? (h : v.childOrEmpty? s = some c) (child : Value) :
    ∃ w, v.setChild? s child = some w := by
  cases v with
  | object ms => exact ⟨_, rfl⟩
  | array items =>
      obtain ⟨i, hindex, hitem⟩ := Option.bind_eq_some_iff.1 h
      have hi : i < items.length := (List.getElem?_eq_some_iff.1 hitem).1
      exact ⟨.array (items.set i child), by rw [setChild?, hindex, Option.bind_some, if_pos hi]⟩
  | _ => cases h

theorem setChild?_array_eq_some {items : List Value}
    (h : (array items).setChild? s child = some w) :
    ∃ i, index? s = some i ∧ i < items.length ∧ w = .array (items.set i child) := by
  obtain ⟨i, hindex, h⟩ := Option.bind_eq_some_iff.1 h
  split at h
  · rename_i hi
    exact ⟨i, hindex, hi, (Option.some.inj h).symm⟩
  · cases h

theorem child?_setChild?_self (h : v.setChild? s child = some w) : w.child? s = some child := by
  cases v with
  | object ms =>
      obtain rfl := Option.some.inj h
      exact Members.get?_insert_self ms s child
  | array items =>
      obtain ⟨i, hindex, hi, rfl⟩ := setChild?_array_eq_some h
      rw [child?, hindex, Option.bind_some, List.getElem?_set_self hi]
  | _ => cases h

theorem child?_setChild?_of_apart (hst : v.Apart s t) (h : v.setChild? s child = some w) :
    w.child? t = v.child? t := by
  cases v with
  | object ms =>
      obtain rfl := Option.some.inj h
      exact Members.get?_insert_of_ne ms child (Ne.symm hst)
  | array items =>
      obtain ⟨i, hindex, -, rfl⟩ := setChild?_array_eq_some h
      rw [child?, child?]
      cases hother : index? t with
      | none => rfl
      | some j =>
          have hij : i ≠ j := fun hij => hst (by rw [hindex, hother, hij])
          rw [Option.bind_some, Option.bind_some, List.getElem?_set_ne hij]
  | _ => cases h

/-- A replaced child does not change which segments select the same child. -/
theorem apart_of_setChild? (h : v.setChild? s child = some w) {a b : String} :
    w.Apart a b ↔ v.Apart a b := by
  cases v with
  | object ms =>
      obtain rfl := Option.some.inj h
      exact .rfl
  | array items =>
      obtain ⟨i, -, -, rfl⟩ := setChild?_array_eq_some h
      exact .rfl
  | _ => cases h

/-- A child is replaced by itself. -/
theorem setChild?_of_child? (h : v.child? s = some c) : v.setChild? s c = some v := by
  cases v with
  | object ms => exact congrArg (some ∘ object) (Members.insert_of_get? h)
  | array items =>
      obtain ⟨i, hindex, hitem⟩ := Option.bind_eq_some_iff.1 h
      obtain ⟨hi, rfl⟩ := List.getElem?_eq_some_iff.1 hitem
      rw [setChild?, hindex, Option.bind_some, if_pos hi, List.set_getElem_self]
  | _ => cases h

theorem WellFormed.child? (hv : v.WellFormed) (h : v.child? s = some c) : c.WellFormed := by
  cases v with
  | object ms => exact hv.get? (show (object ms).get? s = some c from h)
  | array items =>
      obtain ⟨i, -, hitem⟩ := Option.bind_eq_some_iff.1 h
      exact wellFormed_array_iff.1 hv c (List.mem_of_getElem? hitem)
  | _ => cases h

/-! ## Paths that part -/

/-- Two paths inside a value, of which the second one comes to another child than the first one.
The first path may lead through members that are created. -/
inductive Parts : Value → List String → List String → Prop
  | here {v : Value} {s t : String} {p q : List String} :
      v.Apart s t → Parts v (s :: p) (t :: q)
  | inside {v child : Value} {s t : String} {p q : List String} :
      ¬ v.Apart s t → v.childOrEmpty? s = some child → Parts child p q →
        Parts v (s :: p) (t :: q)

variable {p q steps rest : List String} {segment : String} {new : Value}

theorem Parts.ne_nil (h : Parts v p q) : q ≠ [] := by
  cases h <;> exact List.cons_ne_nil _ _

theorem select?_append (v : Value) (p q : List String) :
    v.select? (p ++ q) = (v.select? p).bind (·.select? q) := by
  induction p generalizing v with
  | nil => rfl
  | cons s p ih =>
      rw [List.cons_append, select?, select?]
      cases v.child? s with
      | none => rfl
      | some child => exact ih child

theorem select?_concat (v : Value) (steps : List String) (segment : String) :
    v.select? (steps ++ [segment]) = (v.select? steps).bind (·.child? segment) := by
  rw [select?_append]
  cases v.select? steps with
  | none => rfl
  | some c =>
      rw [Option.bind_some, Option.bind_some, select?]
      cases c.child? segment <;> rfl

/-- A path below a child that may have to be created reads nothing if it has to. -/
theorem select?_cons_of_not_apart (hst : ¬ v.Apart s t) (h : v.childOrEmpty? s = some c)
    (hq : q ≠ []) : v.select? (t :: q) = c.select? q := by
  rw [select?, child?_of_not_apart hst]
  rcases childOrEmpty?_eq_some h with hchild | ⟨hnone, rfl⟩
  · rw [hchild, Option.bind_some]
  · obtain ⟨u, q, rfl⟩ := List.exists_cons_of_ne_nil hq
    rw [hnone]
    rfl

/-- Where a child has been replaced, a path that parts below it reads what the new child has. -/
theorem select?_setChild?_of_not_apart (hst : ¬ v.Apart s t) (h : v.setChild? s child = some w) :
    w.select? (t :: q) = child.select? q := by
  have hst' : ¬ w.Apart s t := fun hw => hst ((apart_of_setChild? h).1 hw)
  rw [select?, child?_of_not_apart hst', child?_setChild?_self h, Option.bind_some]

theorem WellFormed.select? (hv : v.WellFormed) (h : v.select? p = some c) : c.WellFormed := by
  induction p generalizing v with
  | nil => exact Option.some.inj h ▸ hv
  | cons s p ih =>
      obtain ⟨child, hchild, hc⟩ := Option.bind_eq_some_iff.1 h
      exact ih (hv.child? hchild) hc

/-! ## Putting a value -/

theorem putIn_nil_of_setChild? (h : v.setChild? segment new = some w) :
    putIn segment new [] v = (true, w) := by
  rw [putIn, h]

theorem putIn_nil_of_none (h : v.setChild? segment new = none) :
    putIn segment new [] v = (false, v) := by
  rw [putIn, h]

/-- One step of the walk: the child is replaced by what becomes of it. -/
theorem exists_putIn_cons (segment : String) (new : Value) (rest : List String)
    (h : v.childOrEmpty? s = some c) :
    ∃ w, v.setChild? s (putIn segment new rest c).2 = some w ∧
      putIn segment new (s :: rest) v = ((putIn segment new rest c).1, w) := by
  obtain ⟨w, hw⟩ := exists_setChild? h (putIn segment new rest c).2
  exact ⟨w, hw, by simp only [putIn, h, hw, Option.getD_some]⟩

theorem putIn_cons_of_none (h : v.childOrEmpty? s = none) :
    putIn segment new (s :: rest) v = (false, v) := by
  rw [putIn, h]

theorem select?_putIn (h : (putIn segment new steps v).1 = true) :
    (putIn segment new steps v).2.select? (steps ++ [segment]) = some new := by
  induction steps generalizing v with
  | nil =>
      cases hset : v.setChild? segment new with
      | none =>
          rw [putIn_nil_of_none hset] at h
          cases h
      | some w =>
          rw [putIn_nil_of_setChild? hset, List.nil_append, select?, child?_setChild?_self hset]
          rfl
  | cons s rest ih =>
      cases hchild : v.childOrEmpty? s with
      | none =>
          rw [putIn_cons_of_none hchild] at h
          cases h
      | some c =>
          obtain ⟨w, hset, hput⟩ := exists_putIn_cons segment new rest hchild
          rw [hput] at h ⊢
          rw [List.cons_append, select?, child?_setChild?_self hset, Option.bind_some]
          exact ih h

/-- A path that parts from the one where a value is put, or fails to be put, reads as before. -/
theorem select?_putIn_of_parts (h : Parts v (steps ++ [segment]) q) :
    (putIn segment new steps v).2.select? q = v.select? q := by
  induction steps generalizing v q with
  | nil =>
      cases hset : v.setChild? segment new with
      | none => rw [putIn_nil_of_none hset]
      | some w =>
          rw [putIn_nil_of_setChild? hset]
          cases h with
          | here hapart => rw [select?, select?, child?_setChild?_of_apart hapart hset]
          | inside _ _ hparts => cases hparts
  | cons s rest ih =>
      cases hchild : v.childOrEmpty? s with
      | none => rw [putIn_cons_of_none hchild]
      | some c =>
          obtain ⟨w, hset, hput⟩ := exists_putIn_cons segment new rest hchild
          rw [hput]
          cases h with
          | here hapart => rw [select?, select?, child?_setChild?_of_apart hapart hset]
          | inside hnot hchild' hparts =>
              obtain rfl := Option.some.inj (hchild.symm.trans hchild')
              rw [select?_setChild?_of_not_apart hnot hset,
                select?_cons_of_not_apart hnot hchild hparts.ne_nil, ih hparts]

/-- Nothing is in the way below an empty object. -/
theorem putIn_empty (segment : String) (new : Value) (steps : List String) :
    (putIn segment new steps (.object [])).1 = true := by
  induction steps with
  | nil => rfl
  | cons s rest ih =>
      obtain ⟨w, -, hput⟩ := exists_putIn_cons (v := .object []) (s := s) segment new rest rfl
      rw [hput]
      exact ih

/-- A walk that fails leaves the value as it was. -/
theorem putIn_of_not_done (h : (putIn segment new steps v).1 = false) :
    (putIn segment new steps v).2 = v := by
  induction steps generalizing v with
  | nil =>
      cases hset : v.setChild? segment new with
      | none => rw [putIn_nil_of_none hset]
      | some w =>
          rw [putIn_nil_of_setChild? hset] at h
          cases h
  | cons s rest ih =>
      cases hchild : v.childOrEmpty? s with
      | none => rw [putIn_cons_of_none hchild]
      | some c =>
          obtain ⟨w, hset, hput⟩ := exists_putIn_cons segment new rest hchild
          rw [hput] at h ⊢
          rcases childOrEmpty?_eq_some hchild with hthere | ⟨-, rfl⟩
          · rw [ih h, setChild?_of_child? hthere] at hset
            exact (Option.some.inj hset).symm
          -- The child has been created, and the walk below it has gone through.
          · exact absurd (putIn_empty segment new rest) (by simpa using h)

/-- A value that is there can be replaced. -/
theorem putIn_of_select? (h : v.select? (steps ++ [segment]) = some c) :
    (putIn segment new steps v).1 = true := by
  induction steps generalizing v with
  | nil =>
      obtain ⟨child, hchild, -⟩ := Option.bind_eq_some_iff.1 h
      obtain ⟨w, hw⟩ := exists_setChild? (childOrEmpty?_of_child? hchild) new
      rw [putIn_nil_of_setChild? hw]
  | cons s rest ih =>
      obtain ⟨child, hchild, hrest⟩ := Option.bind_eq_some_iff.1 h
      obtain ⟨w, -, hput⟩ :=
        exists_putIn_cons segment new rest (childOrEmpty?_of_child? hchild)
      rw [hput]
      exact ih hrest

/-! ## Changing a selected value -/

/-- A change of the value that a path selects is seen there, and not by paths that part from it. -/
theorem exists_updateIn? {f : Value → Option Value} {changed : Value}
    (h : v.select? steps = some c) (hf : f c = some changed) :
    ∃ w, updateIn? f steps v = some w ∧ w.select? steps = some changed ∧
      ∀ q, Parts v steps q → w.select? q = v.select? q := by
  induction steps generalizing v with
  | nil =>
      obtain rfl := Option.some.inj h
      exact ⟨changed, hf, rfl, nofun⟩
  | cons s rest ih =>
      obtain ⟨child, hchild, hrest⟩ := Option.bind_eq_some_iff.1 h
      obtain ⟨after, hafter, hselect, hframe⟩ := ih hrest
      obtain ⟨w, hset⟩ := exists_setChild? (childOrEmpty?_of_child? hchild) after
      refine ⟨w, ?_, ?_, fun q hq => ?_⟩
      · simp only [updateIn?, hchild, hafter, Option.bind_eq_bind, Option.bind_some, hset]
      · rw [select?, child?_setChild?_self hset, Option.bind_some, hselect]
      · cases hq with
        | here hapart => rw [select?, select?, child?_setChild?_of_apart hapart hset]
        | inside hnot hchild' hparts =>
            obtain rfl := Option.some.inj ((childOrEmpty?_of_child? hchild).symm.trans hchild')
            rw [select?_setChild?_of_not_apart hnot hset,
              select?_cons_of_not_apart hnot hchild' hparts.ne_nil, hframe _ hparts]

/-- A change that leaves the selected value as it is. -/
theorem updateIn?_of_fixed {f : Value → Option Value} (h : v.select? steps = some c)
    (hf : f c = some c) : updateIn? f steps v = some v := by
  induction steps generalizing v with
  | nil =>
      obtain rfl := Option.some.inj h
      exact hf
  | cons s rest ih =>
      obtain ⟨child, hchild, hrest⟩ := Option.bind_eq_some_iff.1 h
      simp only [updateIn?, hchild, ih hrest, Option.bind_eq_bind, Option.bind_some,
        setChild?_of_child? hchild]

/-! ## Taking a value away -/

/-- The second container is the first one without the child that a segment selects: an object has
its other members, in some order, and an array its other items, in the same order. -/
def Without (segment : String) : Value → Value → Prop
  | .object ms, .object left => left.Perm (ms.filter (·.1 != segment))
  | .array items, .array left =>
    ∃ i, index? segment = some i ∧ i < items.length ∧ left = items.eraseIdx i
  | _, _ => False

theorem without_eraseChild (hv : v.WellFormed) (h : v.child? s = some c) :
    Without s v (v.eraseChild s) := by
  cases v with
  | object ms => exact Members.erase_perm (wellFormed_object_iff.1 hv).1 s
  | array items =>
      obtain ⟨i, hindex, hitem⟩ := Option.bind_eq_some_iff.1 h
      have hi : i < items.length := (List.getElem?_eq_some_iff.1 hitem).1
      exact ⟨i, hindex, hi, by rw [hindex, Option.map_some, Option.getD_some]⟩
  | _ => cases h

theorem eraseChild_of_child?_eq_none (h : v.child? s = none) : v.eraseChild s = v := by
  cases v with
  | object ms => exact congrArg object (Members.erase_of_absent h)
  | array items =>
      rw [child?] at h
      rw [eraseChild]
      cases hindex : index? s with
      | none => rfl
      | some i =>
          rw [hindex, Option.bind_some, List.getElem?_eq_none_iff] at h
          rw [Option.map_some, Option.getD_some, List.eraseIdx_of_length_le h]
  | _ => rfl

variable {path : String} {old : Value}

theorem at?_eq_bind (h : (Text.splitAtEach '.' path.toList).head? ≠ some []) (v : Value) :
    v.at? path =
      (v.select? (Place.ofPath path).container).bind (·.child? (Place.ofPath path).segment) := by
  rw [at?, segments_ofPath h, select?_concat]

/-- What is taken away was a child of its container, which is left without it; no path that parts
from the one to the container sees that. -/
theorem take_eq_some (hv : v.WellFormed) (h : (v.take path).1 = some old) :
    ∃ c left, v.select? (Place.ofPath path).container = some c ∧
      c.child? (Place.ofPath path).segment = some old ∧
      (v.take path).2.select? (Place.ofPath path).container = some left ∧
      Without (Place.ofPath path).segment c left ∧
      ∀ q, Parts v (Place.ofPath path).container q → (v.take path).2.select? q = v.select? q := by
  cases hselect : v.select? (Place.ofPath path).container with
  | none =>
      simp only [take, hselect] at h
      cases h
  | some c =>
      obtain ⟨w, hupdate, hleft, hframe⟩ := exists_updateIn?
        (f := fun c => some (c.eraseChild (Place.ofPath path).segment)) hselect rfl
      simp only [take, hselect, hupdate, Option.getD_some] at h ⊢
      exact ⟨c, _, rfl, h, hleft, without_eraseChild (hv.select? hselect) h, hframe⟩

/-- What is not taken away is not there, and nothing changes. -/
theorem take_eq_none (h : (v.take path).1 = none) :
    (v.take path).2 = v ∧ (v.select? (Place.ofPath path).container).bind
      (·.child? (Place.ofPath path).segment) = none := by
  cases hselect : v.select? (Place.ofPath path).container with
  | none =>
      simp only [take, hselect]
      exact ⟨trivial, rfl⟩
  | some c =>
      simp only [take, hselect] at h ⊢
      have hfixed : some (c.eraseChild (Place.ofPath path).segment) = some c :=
        congrArg some (eraseChild_of_child?_eq_none h)
      rw [updateIn?_of_fixed hselect hfixed]
      exact ⟨rfl, h⟩

/-- What is put at a path is read there, and a path that parts from it reads as before; a value
that is there can be replaced, and what fails to be put changes nothing. What is taken away was
there, and its container is left without it; what is not there is not taken away, and nothing
changes. -/
theorem path_laws (hv : v.WellFormed)
    (hpath : (Text.splitAtEach '.' path.toList).head? ≠ some []) (new : Value) :
    ((v.put path new).1 = true → (v.put path new).2.at? path = some new ∧
      ∀ other, Parts v (pathSegments path.toList) (pathSegments other.toList) →
        (v.put path new).2.at? other = v.at? other) ∧
    ((v.put path new).1 = false → (v.put path new).2 = v ∧ v.at? path = none) ∧
    (∀ old, (v.take path).1 = some old → v.at? path = some old ∧
      ∃ steps segment c left, pathSegments path.toList = steps ++ [segment] ∧
        v.select? steps = some c ∧ (v.take path).2.select? steps = some left ∧
        Without segment c left ∧
        ∀ other, Parts v steps (pathSegments other.toList) →
          (v.take path).2.at? other = v.at? other) ∧
    ((v.take path).1 = none → (v.take path).2 = v ∧ v.at? path = none) := by
  have hsegments := segments_ofPath hpath
  refine ⟨fun hdone => ⟨?_, fun other hother => ?_⟩, fun hfail => ⟨putIn_of_not_done hfail, ?_⟩,
    fun old hold => ?_, fun hnone => ?_⟩
  · rw [at?, hsegments]
    exact select?_putIn hdone
  · rw [hsegments] at hother
    exact select?_putIn_of_parts hother
  · cases hget : v.at? path with
    | none => rfl
    | some c =>
        rw [at?, hsegments] at hget
        exact absurd (putIn_of_select? hget) (by simpa [put] using hfail)
  · obtain ⟨c, left, hselect, hchild, hleft, hwithout, hframe⟩ := take_eq_some hv hold
    rw [at?_eq_bind hpath, hselect, Option.bind_some]
    exact ⟨hchild, _, _, c, left, hsegments, hselect, hleft, hwithout,
      fun other hother => hframe _ hother⟩
  · rw [at?_eq_bind hpath]
    exact take_eq_none hnone

namespace Sample

def document : Value :=
  .object [("attributes", .object
    [("data", .array [.object [("target", .string "x")]]), ("ttl", .int 1)])]

def target : String := "attributes.data.0.target"

end Sample

/-- A member of an object inside an array is replaced, and taken away. -/
theorem path_laws_target :
    Sample.document.WellFormed ∧ (Text.splitAtEach '.' Sample.target.toList).head? ≠ some [] ∧
      (Sample.document.put Sample.target (.int 5)).1 = true ∧
      (Sample.document.put Sample.target (.int 5)).2.at? Sample.target = some (.int 5) ∧
      (Sample.document.put Sample.target (.int 5)).2.at? "attributes.ttl" =
        Sample.document.at? "attributes.ttl" ∧
      (Sample.document.take Sample.target).1 = some (.string "x") ∧
      Sample.document.at? Sample.target = some (.string "x") := by
  have hv : Sample.document.WellFormed := by
    simp [Sample.document, WellFormed, MembersWellFormed, ItemsWellFormed]
  have hpath : (Text.splitAtEach '.' Sample.target.toList).head? ≠ some [] := by decide +kernel
  have hdone : (Sample.document.put Sample.target (.int 5)).1 = true := by decide +kernel
  have hold : (Sample.document.take Sample.target).1 = some (.string "x") := by rfl
  have hparts : Parts Sample.document (pathSegments Sample.target.toList)
      (pathSegments "attributes.ttl".toList) := by
    have hsegments : pathSegments Sample.target.toList = ["attributes", "data", "0", "target"] := by
      decide +kernel
    have hother : pathSegments "attributes.ttl".toList = ["attributes", "ttl"] := by
      decide +kernel
    rw [hsegments, hother]
    exact .inside (not_not.2 rfl) rfl (.here (show "data" ≠ "ttl" by decide))
  obtain ⟨hput, -, htake, -⟩ := path_laws hv hpath (.int 5)
  exact ⟨hv, hpath, hdone, (hput hdone).1, (hput hdone).2 _ hparts, hold, (htake _ hold).1⟩

end Value

end Json
end ProviderMigration
