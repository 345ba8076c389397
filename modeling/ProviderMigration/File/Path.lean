import ProviderMigration.Text.Join

/-!
# Paths

A path is a text whose segments are separated by slashes. Its text is kept as it was given, for
messages; two paths are the same if they have the same parts.

* `Path.parts` — the path without empty segments and without dots inside;
* `Path.join`, `Path.parent`, `Path.relativeTo` — paths from paths;
* `Path.fileName?`, `Path.hasExtension` — the last part.
-/

namespace ProviderMigration

structure Path where
  text : String
deriving Repr, DecidableEq, Inhabited

/-- One step of a path. -/
inductive PathPart where
  | root
  | current
  | parent
  | name (s : String)
deriving Repr, DecidableEq, Ord, Inhabited

namespace Path

/-! ## Parts -/

def isAbsolute (p : Path) : Bool :=
  p.text.startsWith "/"

def segments (p : Path) : List String :=
  (Text.splitAtEach '/' p.text.toList).map String.ofList

/-- Where a path starts: the root, the current directory written as a dot, or neither. -/
def start? (p : Path) : Option PathPart :=
  if p.isAbsolute then some .root
  else if p.segments.head? == some "." then some .current
  else none

/-- The segments after the start. -/
def body (p : Path) : List String :=
  if p.start?.isSome then p.segments.drop 1 else p.segments

/-- Whether a segment leads nowhere: an empty one, or a dot. -/
def isIdle (segment : String) : Bool :=
  segment == "" || segment == "."

def partOfSegment? (segment : String) : Option PathPart :=
  if isIdle segment then none
  else if segment == ".." then some .parent
  else some (.name segment)

/-- The parts of a path. They decide which paths are the same and how paths are ordered. -/
def parts (p : Path) : List PathPart :=
  p.start?.toList ++ p.body.filterMap partOfSegment?

/-! ## Paths from paths -/

/-- The last segments without those that lead nowhere. -/
def dropIdleEnd (segments : List String) : List String :=
  (segments.reverse.dropWhile isIdle).reverse

/-- The path of a name inside a directory. -/
def join (p : Path) (name : String) : Path :=
  if p.text.isEmpty || name.startsWith "/" then ⟨name⟩
  else if p.text.endsWith "/" then ⟨p.text ++ name⟩
  else ⟨p.text ++ "/" ++ name⟩

/-- A path of segments after a start. -/
def ofSegments (start : Option PathPart) (segments : List String) : Path :=
  let text := Text.joinWith "/" segments
  match start with
  | some .root => ⟨"/" ++ text⟩
  | some _ => if segments.isEmpty then ⟨"."⟩ else ⟨"./" ++ text⟩
  | none => ⟨text⟩

/-- The directory of a path: all but its last part. -/
def parent (p : Path) : Path :=
  match dropIdleEnd p.body with
  | [] => ⟨""⟩
  | segments => ofSegments p.start? (dropIdleEnd segments.dropLast)

/-- The segments after the first `count` of those that lead somewhere. -/
def dropSteps : Nat → List String → List String
  | 0, segments => segments.dropWhile isIdle
  | _ + 1, [] => []
  | count + 1, segment :: rest =>
    if isIdle segment then dropSteps (count + 1) rest else dropSteps count rest

/-- The rest of a path below a directory; the path itself, if it is not below. -/
def relativeTo (p dir : Path) : Path :=
  if dir.parts.isPrefixOf p.parts then
    if dir.parts.isEmpty then p
    else ofSegments none (dropIdleEnd (dropSteps (dir.body.filterMap partOfSegment?).length p.body))
  else p

/-! ## The last part -/

def fileName? (p : Path) : Option String :=
  match p.parts.getLast? with
  | some (.name s) => some s
  | _ => none

/-- Whether a file name has an extension: the part after its last dot, unless nothing comes before
that dot. -/
def hasExtension (p : Path) (extension : String) : Bool :=
  p.fileName?.any fun name =>
    !extension.toList.contains '.' && name.endsWith ("." ++ extension) && name != "." ++ extension

/-- Whether a file name starts with a dot. -/
def isHidden (p : Path) : Bool :=
  p.fileName?.any (·.startsWith ".")

/-! ## Order -/

/-- Whether a path comes before another, or is the same. -/
def precedes (p q : Path) : Bool :=
  (compare p.parts q.parts).isLE

end Path

end ProviderMigration
