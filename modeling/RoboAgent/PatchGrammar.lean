import Mathlib
import RoboAgent.FalliblePrograms
import RoboAgent.LineEnds

/-! The patch format: the parser of sections and of their bodies, and structured patches with the
lines that write them. A text is a sequence of Unicode scalar values, since a patch with a lone
surrogate is refused before it is parsed. Bodies and structured changes determine each other up
to whitespace after a hunk header. -/

namespace RoboAgent.PatchGrammar
open RoboAgent.FalliblePrograms RoboAgent.LineEnds

/-- The code and the message of the ToolErrorInfo a refused patch carries. -/
structure PatchFailure where
  code : String
  message : String
deriving DecidableEq

abbrev Parsed (α : Type) := Except PatchFailure α

def fail {α : Type} (code message : String) : Parsed α := .error ⟨code, message⟩

def beginPatch : Text := "*** Begin Patch".toList

def endPatch : Text := "*** End Patch".toList

def noNewlineMarker : Text := "\\ No newline at end of file".toList

def hunkHeader : Text := "@@".toList

inductive Operation
  | added
  | modified
  | deleted
deriving DecidableEq

def Operation.header : Operation → Text
  | .added => "*** Add File: ".toList
  | .modified => "*** Update File: ".toList
  | .deleted => "*** Delete File: ".toList

def headers : List Operation := [.added, .modified, .deleted]

def isHeader (line : Text) : Bool := headers.any fun operation => operation.header.isPrefixOf line

structure Section where
  operation : Operation
  path : Text
  body : List Text
deriving DecidableEq

def Section.lines (part : Section) : List Text :=
  (part.operation.header ++ part.path) :: part.body

/-- A strict relative path. -/
def strictRelative (path : Text) : Bool :=
  !(path.isEmpty || ['/'].isPrefixOf path || [[' '], ['\t']].any (·.isPrefixOf path) ||
    [['/'], [' '], ['\t']].any (·.isSuffixOf path) || decide (['/', '/'] <:+: path) ||
    path.contains '\n' || path.contains '\x00' ||
    (path.splitOn '/').any fun part => [[], ['.'], ['.', '.']].contains part)

def validatePath (path : Text) : Parsed Text :=
  if strictRelative path then .ok path
  else fail "invalid_path" "Patch path is not a strict relative path."

def sections : List Text → Parsed (List Section)
  | [] => .ok []
  | header :: lines =>
    match headers.find? fun operation => operation.header.isPrefixOf header with
    | none => fail "invalid_patch" "Expected an exact patch section header."
    | some operation => do
      let path ← validatePath (header.drop operation.header.length)
      let rest ← sections (lines.dropWhile fun line => !isHeader line)
      pure (⟨operation, path, lines.takeWhile fun line => !isHeader line⟩ :: rest)
termination_by lines => lines.length
decreasing_by exact Nat.lt_succ_of_le (List.length_dropWhile_le _ _)

/-- One round of the loop of _parse_add, on the lines read so far and whether each is marked. -/
def addLine (values : List (Text × Bool)) (line : Text) : Parsed (List (Text × Bool)) :=
  if line = noNewlineMarker then
    match values.getLast? with
    | some (text, false) => .ok (values.dropLast ++ [(text, true)])
    | _ => fail "invalid_patch" "No-newline marker is misplaced."
  else
    match line with
    | '+' :: text => .ok (values ++ [(text, false)])
    | _ => fail "invalid_patch" "Add lines must begin with '+'."

def addValues (body : List Text) : Parsed (List (Text × Bool)) := do
  let values ← body.foldlM addLine []
  if values.dropLast.any Prod.snd then
    fail "invalid_patch" "No-newline marker must describe the final added line."
  else .ok values

/-- The contents of an added file. -/
def addedText (values : List (Text × Bool)) : Text :=
  values.flatMap fun value => value.1 ++ if value.2 then [] else ['\n']

def utf8 (text : Text) : ByteArray := (String.ofList text).toUTF8

def parseAdd (body : List Text) : Parsed ByteArray :=
  (addValues body).map fun values => utf8 (addedText values)

inductive Kind
  | context
  | added
  | removed
deriving DecidableEq

def Kind.mark : Kind → Char
  | .context => ' '
  | .added => '+'
  | .removed => '-'

def kindOf (c : Char) : Option Kind :=
  [Kind.context, .added, .removed].find? fun kind => kind.mark == c

structure PatchLine where
  kind : Kind
  text : Text
  noNewline : Bool
deriving DecidableEq

abbrev Hunk := List PatchLine

/-- The whitespace str.rstrip removes. -/
def whitespace : List Char :=
  ['\t', '\n', '\x0b', '\x0c', '\r', '\x1c', '\x1d', '\x1e', '\x1f', ' ', '\u0085', '\u00a0',
    '\u1680', '\u2000', '\u2001', '\u2002', '\u2003', '\u2004', '\u2005', '\u2006', '\u2007',
    '\u2008', '\u2009', '\u200a', '\u2028', '\u2029', '\u202f', '\u205f', '\u3000']

def rstrip (line : Text) : Text := line.rdropWhile (whitespace.contains ·)

/-- The hunk with its last line marked, where there is one without a marker. -/
def markLast (hunk : Hunk) : Option Hunk :=
  match hunk.getLast? with
  | some ⟨kind, text, false⟩ => some (hunk.dropLast ++ [⟨kind, text, true⟩])
  | _ => none

/-- One round of the loop of _parse_hunks, on the hunks read so far. -/
def hunkLine (hunks : List Hunk) (line : Text) : Parsed (List Hunk) :=
  if rstrip line = hunkHeader ∧ hunkHeader <+: line then .ok (hunks ++ [[]])
  else if line = noNewlineMarker then
    match hunks.getLast?.bind markLast with
    | some hunk => .ok (hunks.dropLast ++ [hunk])
    | none => fail "invalid_patch" "No-newline marker is misplaced."
  else
    match hunks.getLast?, line.head?.bind kindOf with
    | some hunk, some kind => .ok (hunks.dropLast ++ [hunk ++ [⟨kind, line.tail, false⟩]])
    | _, _ => fail "invalid_patch" "Update body contains invalid hunk syntax."

def parseHunks (body : List Text) : Parsed (List Hunk) := do
  let hunks ← body.foldlM hunkLine []
  if hunks = [] ∨ [] ∈ hunks then fail "invalid_patch" "Update requires non-empty hunks."
  else .ok hunks

/-- The check of a section's body that ends _parse_patch. -/
def checkBody (part : Section) : Parsed Unit :=
  match part.operation with
  | .added => (parseAdd part.body).map fun _ => ()
  | .deleted =>
    if part.body = [] then .ok () else fail "invalid_patch" "Delete section cannot contain a body."
  | .modified => (parseHunks part.body).map fun _ => ()

def checkSections (parts : List Section) : Parsed (List Section) :=
  if parts = [] then fail "invalid_patch" "Patch requires at least one section."
  else if ¬ (parts.map Section.path).Nodup then
    fail "duplicate_patch_target" "Patch target occurs more than once."
  else do
    let _ ← parts.mapM checkBody
    pure parts

/-- The text without a line end after the end marker. -/
def trimmed (normalized : Text) : Text :=
  if endPatch ++ lf <:+ normalized then normalized.dropLast else normalized

def parsePatch (patch : Text) : Parsed (List Section) :=
  if '\x00' ∈ patch then fail "unsupported_binary_content" "Patch contains NUL."
  else if '\r' ∈ replaceCrlf [] patch then
    fail "invalid_patch" "Patch contains unsupported line endings."
  else
    let normalized := replaceCrlf lf patch
    if ¬ (endPatch <:+ normalized ∨ endPatch ++ lf <:+ normalized) then
      fail "invalid_patch" "Patch must end at the End Patch marker."
    else
      let lines := (trimmed normalized).splitOn '\n'
      if lines.head? ≠ some beginPatch ∨ lines.getLast? ≠ some endPatch then
        fail "invalid_patch" "Patch container markers are invalid."
      else sections lines.tail.dropLast >>= checkSections

/-- What a section does to its file. An added file is its lines, each with whether it is marked
as lacking a newline. -/
inductive Change
  | add (values : List (Text × Bool))
  | update (hunks : List Hunk)
  | delete
deriving DecidableEq

structure FilePatch where
  path : Text
  change : Change
deriving DecidableEq

/-- A section as the tool reads it when it prepares its plans. -/
def readSection (part : Section) : Parsed FilePatch :=
  match part.operation with
  | .added => (addValues part.body).map fun values => ⟨part.path, .add values⟩
  | .deleted =>
    if part.body = [] then .ok ⟨part.path, .delete⟩
    else fail "invalid_patch" "Delete section cannot contain a body."
  | .modified => (parseHunks part.body).map fun hunks => ⟨part.path, .update hunks⟩

def marker (noNewline : Bool) : List Text := if noNewline then [noNewlineMarker] else []

def addedLines (value : Text × Bool) : List Text := ('+' :: value.1) :: marker value.2

def PatchLine.lines (line : PatchLine) : List Text :=
  (line.kind.mark :: line.text) :: marker line.noNewline

def hunkLines (hunk : Hunk) : List Text := hunkHeader :: hunk.flatMap PatchLine.lines

def Change.operation : Change → Operation
  | .add _ => .added
  | .update _ => .modified
  | .delete => .deleted

def Change.body : Change → List Text
  | .add values => values.flatMap addedLines
  | .update hunks => hunks.flatMap hunkLines
  | .delete => []

def FilePatch.lines (file : FilePatch) : List Text :=
  (file.change.operation.header ++ file.path) :: file.change.body

/-- Hunks that an update may have: at least one, and none of them empty. -/
def Hunked (hunks : List Hunk) : Prop := hunks ≠ [] ∧ [] ∉ hunks

/-- Of the lines of an added file only the last one may be marked. -/
def Change.WellFormed : Change → Prop
  | .add values => ∀ value ∈ values.dropLast, value.2 = false
  | .update hunks => Hunked hunks
  | .delete => True

structure Structured (patch : List FilePatch) : Prop where
  filled : patch ≠ []
  distinct : (patch.map FilePatch.path).Nodup
  paths : ∀ file ∈ patch, strictRelative file.path = true
  changes : ∀ file ∈ patch, file.change.WellFormed

/-- The contents of the lines a change writes. -/
def Change.texts : Change → List Text
  | .add values => values.map Prod.fst
  | .update hunks => hunks.flatten.map PatchLine.text
  | .delete => []

def patchLines (patch : List FilePatch) : List Text :=
  beginPatch :: patch.flatMap FilePatch.lines ++ [endPatch]

/-- The documented format, with one line end throughout. -/
def render (newline : Text) (patch : List FilePatch) : Text :=
  unlines ((patchLines patch).map fun line => (line, newline))

/-- A line without the whitespace after a hunk header. -/
def unblank (line : Text) : Text :=
  if rstrip line = hunkHeader ∧ hunkHeader <+: line then hunkHeader else line

/-- No line end and no NUL. -/
def Plain (line : Text) : Prop := '\n' ∉ line ∧ '\r' ∉ line ∧ '\x00' ∉ line

/-- A text that writes a patch: each line but the last has a line end of its own, the last one may
have one, and whitespace may follow a hunk header. -/
def Rendered (patch : List FilePatch) (text : Text) : Prop :=
  ∃ lines : List Line, text = unlines lines ∧
    lines.map (fun line => unblank line.1) = patchLines patch ∧
    (∀ line ∈ lines, Plain line.1) ∧
    (∀ line ∈ lines.dropLast, line.2 = lf ∨ line.2 = crlf) ∧
    ∀ line ∈ lines.getLast?, line.2 = [] ∨ line.2 = lf ∨ line.2 = crlf

/-- The sections of a text, then their bodies. -/
def parse (text : Text) : Parsed (List FilePatch) := parsePatch text >>= List.mapM readSection

end RoboAgent.PatchGrammar
