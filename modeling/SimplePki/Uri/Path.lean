import SimplePki.Text.Break
import SimplePki.Text.Fields
import SimplePki.Uri.Percent

/-!
# Paths

A hierarchical path is a list of segments.  A segment of one dot stands for nothing, one of two dots
removes the segment before it, and neither is ever written.  A drive letter at the front of a file
path is kept by two dots and loses its host.

The segments of a text may hold breaks.  They mean nothing, except that a break sets a drive letter
off from what follows it in its segment.

## Main definitions

* `UriPath.Walk`: the segments passed so far
* `UriPath.written`: a segment as it is written
* `UriPath.ofChars`: the path of a text
-/

namespace SimplePki.UriPath

/-- A path under construction: the segments passed, last first, and whether the first of them is a
drive letter, which leaves no room for a host. -/
structure Walk where
  passed : List (List Char)
  onDrive : Bool

/-- A segment as it is written: without breaks, and percent-encoded. -/
def written (segment : List Char) : List Char :=
  Percent.encode Percent.inPath (Text.joined segment)

/-- Two dots, either of them possibly percent-encoded. -/
def isDoubleDot (segment : List Char) : Bool :=
  ["..", "%2e.", ".%2e", "%2e%2e"].contains (String.ofList ((written segment).map Char.toLower))

/-- One dot, possibly percent-encoded. -/
def isSingleDot (segment : List Char) : Bool :=
  [".", "%2e"].contains (String.ofList ((written segment).map Char.toLower))

/-- A letter and a colon or bar, and nothing more. -/
def isDrive : List Char → Bool
  | [letter, mark] => letter.isAlpha && (mark == ':' || mark == '|')
  | _ => false

/-- A drive letter that is the whole segment or ends at a backslash. -/
def beginsWithDrive : List Char → Bool
  | letter :: mark :: rest => isDrive [letter, mark] && (rest.isEmpty || rest.head? == some '\\')
  | _ => false

/-- The segments that remain when two dots remove the last one: a drive letter stays. -/
def Walk.up (walk : Walk) : Walk :=
  match walk.passed with
  | [] => walk
  | last :: before => if beginsWithDrive last then walk else { walk with passed := before }

/-- A drive letter that a break sets off in its segment, and what follows it there. -/
def splitDrive? (segment : List Char) : Option (List Char × List Char) :=
  match segment.dropWhile Text.isBreak with
  | letter :: behind =>
    match behind.dropWhile Text.isBreak with
    | ':' :: rest =>
      if letter.isAlpha && rest.head?.any Text.isBreak && !(Text.joined rest).isEmpty then
        some ([letter, ':'], rest)
      else none
    | _ => none
  | [] => none

/-- The walk behind the first segment of a file path.  A drive letter is written with a colon and
leaves no room for a host; one that a break sets off is a segment of its own, and no more than
that. -/
def Walk.enter (walk : Walk) (segment : List Char) : Walk :=
  match splitDrive? segment with
  | some (drive, rest) => { walk with passed := [written rest, drive] }
  | none =>
    if isDrive (Text.joined segment) then
      { passed := [(Text.joined segment).take 1 ++ [':']], onDrive := true }
    else { walk with passed := [written segment] }

/-- The walk behind a segment that is neither one dot nor two. -/
def Walk.down (file : Bool) (walk : Walk) (segment : List Char) : Walk :=
  if file && walk.passed.isEmpty then walk.enter segment
  else { walk with passed := written segment :: walk.passed }

/-- The walk behind a segment that a slash follows. -/
def Walk.pass (file : Bool) (walk : Walk) (segment : List Char) : Walk :=
  if isDoubleDot segment then walk.up
  else if isSingleDot segment then walk
  else walk.down file segment

/-- The walk behind the last segment; dots leave an empty segment. -/
def Walk.finish (file : Bool) (walk : Walk) (segment : List Char) : Walk :=
  if isDoubleDot segment then { walk.up with passed := [] :: walk.up.passed }
  else if isSingleDot segment then { walk with passed := [] :: walk.passed }
  else walk.down file segment

/-- The walk over segments of which a slash follows all but the last. -/
def Walk.over (file : Bool) (walk : Walk) : List (List Char) → Walk
  | [] => walk
  | [last] => walk.finish file last
  | segment :: next :: rest => (walk.pass file segment).over file (next :: rest)

/-- Whether a character separates segments; under a special scheme a backslash does. -/
def isSlash (special : Bool) (c : Char) : Bool := c == '/' || (special && c == '\\')

/-- The path of a text without its first slash, and whether it begins with a drive letter.  A file
path has no empty segments at its front. -/
def ofChars (special file : Bool) (text : List Char) : List Char × Bool :=
  let walk := Walk.over file ⟨[], false⟩ (Text.fields (isSlash special) text)
  let found := walk.passed.reverse
  -- a file path has the slashes of its front merged
  let shown := if file then found.dropWhile List.isEmpty else found
  ('/' :: (shown.intersperse ['/']).flatten, walk.onDrive)

end SimplePki.UriPath
