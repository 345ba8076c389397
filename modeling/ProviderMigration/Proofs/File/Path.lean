import ProviderMigration.File.Path
import ProviderMigration.Proofs.Text.Join
import Mathlib.Data.List.Basic
import Mathlib.Data.List.Induction
import Mathlib.Tactic.Common

/-!
# Paths and their parts

* `parts_eq` — the parts of a path come from its segments;
* `text_join_append` — a longer name in a directory makes a longer path;
* `exists_parts_join` — and changes its last part at most;
* `segments_below`, `parts_below` — the segments and the parts of a path below a directory;
* `text_relativeTo_below` — and what it is called inside the directory.
-/

namespace ProviderMigration

/-! ## Order -/

theorem PathPart.compare_name (s t : String) :
    compare (PathPart.name s) (.name t) = compare s t := by
  change (compare s t).then .eq = compare s t
  cases compare s t <;> rfl

instance : Std.LawfulEqOrd PathPart where
  compare_self {a} := by
    cases a with
    | root | current | parent => rfl
    | name s => rw [PathPart.compare_name, Std.ReflOrd.compare_self]
  eq_of_compare {a b} h := by
    cases a <;> cases b
    case name.name s t =>
      rw [PathPart.compare_name] at h
      rw [Std.LawfulEqOrd.eq_of_compare h]
    all_goals first | rfl | cases h

/-- The kinds of parts, in their order. -/
def PathPart.rank : PathPart → Nat
  | .root => 0
  | .current => 1
  | .parent => 2
  | .name _ => 3

/-- The name of a part that has one. -/
def PathPart.text : PathPart → String
  | .name s => s
  | _ => ""

/-- Parts are compared by their kinds, and names by their texts. -/
theorem PathPart.compare_eq_compareLex :
    (compare : PathPart → PathPart → Ordering) = compareLex (compareOn rank) (compareOn text) := by
  funext a b
  cases a <;> cases b
  case name.name s t =>
    rw [compare_name]
    simp [compareLex, compareOn, rank, text]
  all_goals rfl

instance : Std.TransOrd PathPart := by
  rw [Std.TransOrd, PathPart.compare_eq_compareLex]
  infer_instance

namespace Path

theorem precedes_trans (p q r : Path) (h : p.precedes q = true) (h' : q.precedes r = true) :
    p.precedes r = true :=
  Std.TransCmp.isLE_trans h h'

theorem precedes_total (p q : Path) : (p.precedes q || q.precedes p) = true := by
  have hswap : compare p.parts q.parts = (compare q.parts p.parts).swap := Std.OrientedCmp.eq_swap
  rw [precedes, precedes, hswap]
  cases compare q.parts p.parts <;> rfl

/-- A path comes before one with other parts, or after it. -/
theorem lt_of_precedes {p q : Path} (h : p.precedes q = true) (hne : p.parts ≠ q.parts) :
    compare p.parts q.parts = .lt := by
  rw [precedes] at h
  cases hcompare : compare p.parts q.parts with
  | lt => rfl
  | eq => exact absurd (Std.LawfulEqOrd.eq_of_compare hcompare) hne
  | gt =>
      rw [hcompare] at h
      cases h

/-! ## Parts -/

theorem head_segments_of_isAbsolute {p : Path} (h : p.isAbsolute = true) :
    p.segments.head? = some "" := by
  obtain ⟨cs, hcs⟩ := String.startsWith_string_iff.1 h
  have htext : p.text.toList = '/' :: cs := by simpa using hcs.symm
  simp [segments, htext, Text.splitAtEach]

/-- What comes before the body of a path leads nowhere. -/
theorem filterMap_body (p : Path) :
    p.body.filterMap partOfSegment? = p.segments.filterMap partOfSegment? := by
  unfold body start?
  by_cases habsolute : p.isAbsolute = true
  · have hhead := head_segments_of_isAbsolute habsolute
    cases hsegments : p.segments with
    | nil => simp
    | cons s rest =>
        obtain rfl : s = "" := by simpa [hsegments] using hhead
        simp [habsolute, partOfSegment?, isIdle]
  · cases hsegments : p.segments with
    | nil => simp [habsolute]
    | cons s rest =>
        by_cases hdot : s = "."
        · simp [habsolute, hdot, partOfSegment?, isIdle]
        · simp [habsolute, hdot]

theorem parts_eq (p : Path) :
    p.parts = p.start?.toList ++ p.segments.filterMap partOfSegment? := by
  rw [parts, filterMap_body]

/-- Only an absolute path starts with an empty segment. -/
theorem head_segments_ne_empty {p : Path} (htext : p.text ≠ "") (h : p.isAbsolute = false) :
    p.segments.head? ≠ some "" := by
  have hlist : p.text.toList ≠ [] := by simpa using htext
  obtain ⟨c, cs, hcs⟩ := List.exists_cons_of_ne_nil hlist
  have hc : c ≠ '/' := by
    rintro rfl
    rw [isAbsolute, Bool.eq_false_iff, ne_eq, String.startsWith_string_iff, hcs] at h
    exact h (by simp)
  rcases Text.exists_splitAtEach '/' cs with ⟨pieces, last, hpieces⟩
  rw [segments, hcs, Text.splitAtEach, if_neg hc, hpieces]
  cases pieces <;> simp

/-- A path has a part: its first segment leads somewhere, unless it is the start. -/
theorem parts_ne_nil {p : Path} (htext : p.text ≠ "") : p.parts ≠ [] := by
  intro hnil
  rw [parts_eq] at hnil
  obtain ⟨hnone, hsegments⟩ := List.append_eq_nil_iff.1 hnil
  have hrelative : p.isAbsolute = false := by
    by_contra h
    simp [start?, Bool.not_eq_false _ ▸ h] at hnone
  cases hfirst : p.segments with
  | nil =>
      rcases Text.exists_splitAtEach '/' p.text.toList with ⟨before, last, hsplit⟩
      simp [segments, hsplit] at hfirst
  | cons first rest =>
      have hempty := head_segments_ne_empty htext hrelative
      rw [hfirst] at hempty hsegments
      have hdot : first ≠ "." := by
        rintro rfl
        simp [start?, hrelative, hfirst] at hnone
      have hidle : isIdle first = false := by
        simpa [isIdle, hdot] using hempty
      have hpart := List.filterMap_eq_nil_iff.1 hsegments first (by simp)
      rw [partOfSegment?, hidle] at hpart
      split at hpart
      · contradiction
      · split at hpart <;> cases hpart

/-! ## File names -/

theorem startsWith_slash_append (s : String) {tail : String}
    (htail : tail.toList.head? ≠ some '/') : (s ++ tail).startsWith "/" = s.startsWith "/" := by
  rw [Bool.eq_iff_iff, String.startsWith_string_iff, String.startsWith_string_iff]
  cases hs : s.toList with
  | nil =>
      cases hcs : tail.toList with
      | nil => simp [hs, hcs]
      | cons c cs =>
          have hc : c ≠ '/' := by simpa [hcs] using htail
          simp [hs, hcs, Ne.symm hc]
  | cons c cs => simp [hs]

theorem text_join_append (dir : Path) (name : String) {tail : String}
    (htail : tail.toList.head? ≠ some '/') :
    (dir.join (name ++ tail)).text = (dir.join name).text ++ tail := by
  rw [join, join, startsWith_slash_append name htail]
  split
  · rfl
  · split
    · exact (String.append_assoc ..).symm
    · exact (String.append_assoc ..).symm

/-- The part that a last segment becomes which gets longer: none, a dot at the start of the path,
the directory above, or a name. -/
def IsGrowing (stem : String) (last : Option PathPart) : Prop :=
  last = none ∨ last = some .current ∨ last = some .parent ∨ last = some (.name stem)

theorem isGrowing_partOfSegment? (stem : String) : IsGrowing stem (partOfSegment? stem) := by
  unfold partOfSegment?
  split
  · exact .inl rfl
  · split
    · exact .inr (.inr (.inl rfl))
    · exact .inr (.inr (.inr rfl))

/-- Where a path starts is told by its first segment, if it is relative. -/
theorem start?_of_not_isAbsolute {p : Path} (h : p.isAbsolute = false) :
    p.start? = if p.segments.head? = some "." then some .current else none := by
  simp [start?, h]

theorem ne_dot_of_name {segment : String} (h : partOfSegment? segment = some (.name segment)) :
    segment ≠ "." := by
  rintro rfl
  exact absurd h (by decide)

/-- A name in a directory that gets longer makes the last segment of the path longer. -/
theorem exists_segments_join (dir : Path) (name : String) :
    ∃ before stem, (dir.join name).segments = before ++ [stem] ∧
      ∀ tail : String, '/' ∉ tail.toList →
        (dir.join (name ++ tail)).segments = before ++ [stem ++ tail] ∧
          (dir.join (name ++ tail)).isAbsolute = (dir.join name).isAbsolute := by
  rcases Text.exists_splitAtEach '/' (dir.join name).text.toList with ⟨pieces, piece, hsplit⟩
  refine ⟨pieces.map String.ofList, String.ofList piece, ?_, ?_⟩
  · rw [segments, hsplit, List.map_append]
    rfl
  · intro tail htail
    have hhead : tail.toList.head? ≠ some '/' := fun h =>
      htail (List.mem_of_mem_head? (by simp [h]))
    have htext := text_join_append dir name hhead
    constructor
    · rw [segments, htext, String.toList_append, Text.splitAtEach_append hsplit htail]
      simp [String.ofList_append]
    · rw [isAbsolute, htext, startsWith_slash_append _ hhead, isAbsolute]

/-- A name in a directory that gets longer changes the last part of the path at most: as soon as it
is a name for sure, that part is the name with something before it. -/
theorem exists_parts_join (dir : Path) (name : String) :
    ∃ front stem last, IsGrowing stem last ∧ (dir.join name).parts = front ++ last.toList ∧
      ∀ tail : String, '/' ∉ tail.toList →
        partOfSegment? (stem ++ tail) = some (.name (stem ++ tail)) →
        (dir.join (name ++ tail)).parts = front ++ [.name (stem ++ tail)] := by
  rcases exists_segments_join dir name with ⟨before, stem, hsegments, hlonger⟩
  by_cases hdot : (dir.join name).isAbsolute = false ∧ before = [] ∧ stem = "."
  · -- A dot at the start is no part of its own once it has become a name.
    rcases hdot with ⟨hrelative, rfl, rfl⟩
    refine ⟨[], ".", some .current, .inr (.inl rfl), ?_, ?_⟩
    · rw [parts_eq, start?_of_not_isAbsolute hrelative, hsegments]
      rfl
    · intro tail htail hname
      rcases hlonger tail htail with ⟨hsegments', habsolute⟩
      rw [parts_eq, start?_of_not_isAbsolute (habsolute.trans hrelative), hsegments']
      simp [ne_dot_of_name hname, hname]
  · refine ⟨(dir.join name).start?.toList ++ before.filterMap partOfSegment?, stem,
      partOfSegment? stem, isGrowing_partOfSegment? stem, ?_, ?_⟩
    · rw [parts_eq, hsegments, List.filterMap_append, List.append_assoc]
      congr 2
    · intro tail htail hname
      rcases hlonger tail htail with ⟨hsegments', habsolute⟩
      have hstart : (dir.join (name ++ tail)).start? = (dir.join name).start? := by
        cases hname' : (dir.join name).isAbsolute with
        | true =>
            rw [start?, start?, habsolute, hname']
            rfl
        | false =>
            rw [start?_of_not_isAbsolute (habsolute.trans hname'), start?_of_not_isAbsolute hname',
              hsegments, hsegments']
            cases before with
            | nil =>
                have hstem : stem ≠ "." := fun h => hdot ⟨hname', rfl, h⟩
                simp [hstem, ne_dot_of_name hname]
            | cons first rest => rfl
      rw [parts_eq, hstart, hsegments', List.filterMap_append, List.append_assoc]
      simp [hname]

/-! ## Paths below a directory -/

/-- A name that a file or directory can have. -/
structure IsName (name : String) : Prop where
  part : partOfSegment? name = some (.name name)
  noSlash : '/' ∉ name.toList

instance (name : String) : Decidable (IsName name) :=
  decidable_of_iff (partOfSegment? name = some (.name name) ∧ '/' ∉ name.toList)
    ⟨fun h => ⟨h.1, h.2⟩, fun h => ⟨h.part, h.noSlash⟩⟩

theorem IsName.not_idle {name : String} (h : IsName name) : isIdle name = false := by
  have hpart := h.part
  unfold partOfSegment? at hpart
  by_contra hidle
  rw [if_pos (by simpa using hidle)] at hpart
  cases hpart

theorem IsName.ne_empty {name : String} (h : IsName name) : name ≠ "" := by
  rintro rfl
  exact absurd h.not_idle (by decide)

/-- The path of names one below the other. -/
def below (dir : Path) (names : List String) : Path :=
  names.foldl join dir

theorem below_concat (dir : Path) (names : List String) (name : String) :
    dir.below (names ++ [name]) = (dir.below names).join name := by
  rw [below, below, List.foldl_append]
  rfl

theorem text_join {p : Path} {name : String} (htext : p.text ≠ "") (hname : IsName name) :
    (p.join name).text =
      if p.text.endsWith "/" then p.text ++ name else p.text ++ "/" ++ name := by
  have hempty : p.text.isEmpty = false := by simpa using htext
  have hslash : name.startsWith "/" = false := by
    rw [Bool.eq_false_iff, ne_eq, String.startsWith_string_iff]
    rintro ⟨cs, hcs⟩
    exact hname.noSlash (hcs ▸ by simp)
  rw [join, hempty, hslash]
  simp only [Bool.or_false, Bool.false_eq_true, if_false]
  split <;> rfl

/-- A name in a directory is its last segment; the others are those of the directory without a slash
at its end. -/
theorem segments_join {p : Path} (htext : p.text ≠ "") :
    ∃ before tail, p.segments = before ++ tail ∧ (tail = [] ∨ tail = [""]) ∧ before ≠ [] ∧
      ∀ name, IsName name → (p.join name).segments = before ++ [name] := by
  by_cases hends : p.text.endsWith "/" = true
  · obtain ⟨cs, hcs⟩ : ∃ cs, p.text.toList = cs ++ ['/'] := by
      rw [String.endsWith_eq_endsWith_toSlice, String.Slice.endsWith_string_iff] at hends
      obtain ⟨cs, hcs⟩ := hends
      exact ⟨cs, by simpa using hcs.symm⟩
    refine ⟨(Text.splitAtEach '/' cs).map String.ofList, [""], ?_, .inr rfl, ?_, ?_⟩
    · rw [segments, hcs, Text.splitAtEach_append_cons, List.map_append]
      rfl
    · rcases Text.exists_splitAtEach '/' cs with ⟨before, last, hsplit⟩
      simp [hsplit]
    · intro name hname
      rw [segments, text_join htext hname, if_pos hends, String.toList_append, hcs,
        List.append_assoc, List.singleton_append, Text.splitAtEach_append_cons,
        Text.splitAtEach_of_not_mem hname.noSlash]
      simp
  · refine ⟨p.segments, [], by simp, .inl rfl, ?_, ?_⟩
    · rcases Text.exists_splitAtEach '/' p.text.toList with ⟨before, last, hsplit⟩
      simp [segments, hsplit]
    · intro name hname
      have hlist : (p.join name).text.toList = p.text.toList ++ '/' :: name.toList := by
        rw [text_join htext hname, if_neg hends]
        simp
      rw [segments, hlist, Text.splitAtEach_append_cons,
        Text.splitAtEach_of_not_mem hname.noSlash, segments]
      simp

theorem text_join_ne_empty {p : Path} {name : String} (htext : p.text ≠ "") (hname : IsName name) :
    (p.join name).text ≠ "" := by
  rw [text_join htext hname]
  split <;> simp [htext]

theorem isAbsolute_join {p : Path} {name : String} (htext : p.text ≠ "") (hname : IsName name) :
    (p.join name).isAbsolute = p.isAbsolute := by
  have hlist : p.text.toList ≠ [] := by simpa using htext
  rw [isAbsolute, isAbsolute, Bool.eq_iff_iff, String.startsWith_string_iff,
    String.startsWith_string_iff, text_join htext hname]
  obtain ⟨c, cs, hcs⟩ := List.exists_cons_of_ne_nil hlist
  split <;> simp [hcs]

/-- A path below a directory has the segments of the directory, without a slash at its end, and then
the names. -/
theorem segments_below {dir : Path} (htext : dir.text ≠ "") :
    ∃ before tail, dir.segments = before ++ tail ∧ (tail = [] ∨ tail = [""]) ∧ before ≠ [] ∧
      ∀ names, names ≠ [] → (∀ name ∈ names, IsName name) →
        (dir.below names).segments = before ++ names ∧ (dir.below names).text ≠ "" ∧
          (dir.below names).isAbsolute = dir.isAbsolute := by
  obtain ⟨before, tail, hdir, htail, hbefore, hjoin⟩ := segments_join htext
  refine ⟨before, tail, hdir, htail, hbefore, ?_⟩
  intro names
  induction names using List.reverseRecOn with
  | nil => exact fun h => absurd rfl h
  | append_singleton names name ih =>
      intro _ hnames
      rw [List.forall_mem_append, List.forall_mem_singleton] at hnames
      rw [below_concat]
      by_cases hnil : names = []
      · subst hnil
        exact ⟨hjoin name hnames.2, text_join_ne_empty htext hnames.2,
          isAbsolute_join htext hnames.2⟩
      · obtain ⟨hsegments, hne, habsolute⟩ := ih hnil hnames.1
        refine ⟨?_, text_join_ne_empty hne hnames.2,
          (isAbsolute_join hne hnames.2).trans habsolute⟩
        obtain ⟨before', tail', hpath, htail', -, hjoin'⟩ := segments_join hne
        -- The path ends with a name, so with no slash.
        obtain rfl : tail' = [] := by
          rcases htail' with rfl | rfl
          · rfl
          · have hlast := congrArg List.getLast? (hsegments.symm.trans hpath)
            obtain ⟨init, last, rfl⟩ := (List.eq_nil_or_concat names).resolve_left hnil
            have hname := hnames.1 last (by simp)
            rw [List.concat_eq_append, ← List.append_assoc] at hlast
            simp only [List.getLast?_concat, Option.some.injEq] at hlast
            exact absurd hlast hname.ne_empty
        rw [hjoin' name hnames.2, ← List.append_nil before', ← hpath, hsegments,
          List.append_assoc]

/-- Where a path below a directory starts is where the directory does. -/
theorem start?_below {dir : Path} (htext : dir.text ≠ "") {names : List String}
    (hnames : ∀ name ∈ names, IsName name) : (dir.below names).start? = dir.start? := by
  by_cases hne : names = []
  · subst hne
    rfl
  obtain ⟨before, tail, hdir, -, hbefore, hbelow⟩ := segments_below htext
  obtain ⟨hpath, -, habsolute⟩ := hbelow names hne hnames
  obtain ⟨first, rest, rfl⟩ := List.exists_cons_of_ne_nil hbefore
  rw [start?, start?, habsolute, hpath, hdir]
  rfl

theorem filterMap_idleEnd {tail : List String} (h : tail = [] ∨ tail = [""]) :
    tail.filterMap partOfSegment? = [] := by
  rcases h with rfl | rfl
  · rfl
  · rfl

/-- The parts of a path below a directory are those of the directory and the names. -/
theorem parts_below {dir : Path} (htext : dir.text ≠ "") {names : List String}
    (hnames : ∀ name ∈ names, IsName name) :
    (dir.below names).parts = dir.parts ++ names.map PathPart.name := by
  by_cases hne : names = []
  · subst hne
    exact (List.append_nil _).symm
  obtain ⟨before, tail, hdir, htail, -, hbelow⟩ := segments_below htext
  have hparts : names.filterMap partOfSegment? = names.map PathPart.name :=
    List.filterMap_eq_map_iff_forall_eq_some.2 fun name hname => (hnames name hname).part
  -- A slash at the end of the directory makes an empty segment, which is no part.
  rw [parts_eq, parts_eq, start?_below htext hnames, (hbelow names hne hnames).1, hdir,
    List.filterMap_append, List.filterMap_append, hparts, filterMap_idleEnd htail,
    List.append_nil, List.append_assoc]

theorem fileName?_below {dir : Path} (htext : dir.text ≠ "") {names : List String} {name : String}
    (hnames : ∀ name' ∈ names ++ [name], IsName name') :
    (dir.below (names ++ [name])).fileName? = some name := by
  rw [fileName?, parts_below htext hnames, List.map_append, List.map_singleton, ← List.append_assoc,
    List.getLast?_concat]

/-- Paths below a directory with the same parts are the same. -/
theorem below_injective {dir : Path} (htext : dir.text ≠ "") {names names' : List String}
    (hnames : ∀ name ∈ names, IsName name) (hnames' : ∀ name ∈ names', IsName name)
    (h : (dir.below names).parts = (dir.below names').parts) : names = names' := by
  rw [parts_below htext hnames, parts_below htext hnames'] at h
  have hinjective : Function.Injective PathPart.name := fun s t heq => PathPart.name.inj heq
  exact List.map_injective_iff.2 hinjective (List.append_cancel_left h)

/-! ## Names inside a directory -/

theorem dropSteps_append {before names : List String} (hnames : ∀ name ∈ names, IsName name) :
    dropSteps (before.filterMap partOfSegment?).length (before ++ names) = names := by
  have hstart : dropSteps 0 names = names := by
    cases names with
    | nil => rfl
    | cons name rest =>
        rw [dropSteps, List.dropWhile_cons_of_neg]
        simp [(hnames name (by simp)).not_idle]
  induction before with
  | nil => exact hstart
  | cons segment before ih =>
      cases hidle : isIdle segment with
      | true =>
          have hnone : partOfSegment? segment = none := by rw [partOfSegment?, if_pos hidle]
          rw [List.filterMap_cons_none hnone, List.cons_append]
          cases hcount : (before.filterMap partOfSegment?).length with
          | zero =>
              rw [hcount, dropSteps] at ih
              rw [dropSteps, List.dropWhile_cons_of_pos hidle]
              exact ih
          | succ count =>
              rw [hcount] at ih
              rw [dropSteps, if_pos hidle]
              exact ih
      | false =>
          obtain ⟨part, hpart⟩ : ∃ part, partOfSegment? segment = some part := by
            rw [partOfSegment?, hidle]
            split
            · contradiction
            · split <;> exact ⟨_, rfl⟩
          rw [List.filterMap_cons_some hpart, List.length_cons, List.cons_append, dropSteps, hidle]
          exact ih

theorem dropIdleEnd_of_names {names : List String} (hnames : ∀ name ∈ names, IsName name) :
    dropIdleEnd names = names := by
  rw [dropIdleEnd]
  cases hreverse : names.reverse with
  | nil => simpa using hreverse.symm
  | cons name rest =>
      have hmem : name ∈ names := List.mem_reverse.1 (hreverse ▸ by simp)
      rw [List.dropWhile_cons_of_neg (by simp [(hnames name hmem).not_idle]), ← hreverse,
        List.reverse_reverse]

/-- Inside its directory a path is called by the names on the way. -/
theorem text_relativeTo_below {dir : Path} (htext : dir.text ≠ "") {names : List String}
    (hne : names ≠ []) (hnames : ∀ name ∈ names, IsName name) :
    ((dir.below names).relativeTo dir).text = Text.joinWith "/" names := by
  obtain ⟨before, tail, hdir, htail, hbefore, hbelow⟩ := segments_below htext
  obtain ⟨hpath, -, -⟩ := hbelow names hne hnames
  obtain ⟨first, rest, rfl⟩ := List.exists_cons_of_ne_nil hbefore
  -- The start and the rest of the directory are those of the path.
  have hstart := start?_below htext hnames
  obtain ⟨inner, hinner, hinnerPath⟩ : ∃ inner, dir.body = inner ++ tail ∧
      (dir.below names).body = inner ++ names := by
    rw [body, body, hstart, hpath, hdir]
    split
    · exact ⟨rest, rfl, rfl⟩
    · exact ⟨first :: rest, rfl, rfl⟩
  have htailIdle := filterMap_idleEnd htail
  have hdirParts : dir.parts = dir.start?.toList ++ inner.filterMap partOfSegment? := by
    rw [parts, hinner, List.filterMap_append, htailIdle, List.append_nil]
  have hprefix : dir.parts.isPrefixOf (dir.below names).parts = true := by
    rw [List.isPrefixOf_iff_prefix, hdirParts, parts, hstart, hinnerPath, List.filterMap_append,
      ← List.append_assoc]
    exact List.prefix_append _ _
  have hparts : dir.parts.isEmpty = false := by
    simpa using parts_ne_nil htext
  have hcount : (dir.body.filterMap partOfSegment?).length =
      (inner.filterMap partOfSegment?).length := by
    rw [hinner, List.filterMap_append, htailIdle, List.append_nil]
  rw [relativeTo, if_pos hprefix, hparts, hcount, hinnerPath, dropSteps_append hnames,
    dropIdleEnd_of_names hnames]
  rfl

theorem joinWith_injective {names names' : List String} (hne : names ≠ []) (hne' : names' ≠ [])
    (hnames : ∀ name ∈ names, IsName name) (hnames' : ∀ name ∈ names', IsName name)
    (h : Text.joinWith "/" names = Text.joinWith "/" names') : names = names' := by
  have hfree : ∀ s ∈ names, '/' ∉ s.toList := fun s hs => (hnames s hs).noSlash
  have hfree' : ∀ s ∈ names', '/' ∉ s.toList := fun s hs => (hnames' s hs).noSlash
  have hsplit := Text.splitAtEach_joinWith hne hfree
  have hsplit' := Text.splitAtEach_joinWith hne' hfree'
  have htexts : names.map String.toList = names'.map String.toList := by
    rw [← hsplit, ← hsplit']
    exact congrArg (fun s : String => Text.splitAtEach '/' s.toList) h
  exact List.map_injective_iff.2 (fun s t h => String.ext h) htexts

end Path
end ProviderMigration
