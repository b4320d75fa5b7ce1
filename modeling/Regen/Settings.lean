import Regen.Text.Basic

/-!
# Settings

Which tokens delimit the markers, what their headers may look like, and how a text is
regenerated. There are two families of markers. The header of a *generation* marker is a
template that produces the body; the body of an *edit* marker is written by hand, and its header
names it.
-/

namespace Regen

/-- The two families of markers. -/
inductive Family where
  /-- Markers whose header is rendered to produce the body. -/
  | generation
  /-- Markers whose body is written by hand and kept. -/
  | edit
  deriving DecidableEq, Repr

/-- How many lines a header may take. -/
inductive HeaderRule where
  /-- One or several. -/
  | any
  /-- One only. -/
  | inline
  /-- Several only. -/
  | multiline
  deriving DecidableEq, Repr

/-- How a template is turned into output. -/
inductive Mode where
  /-- Only the headers of generation markers are rendered. -/
  | directive
  /-- The whole text is rendered, and then its generation markers are. -/
  | document
  deriving DecidableEq, Repr

/-- The tokens of one family, and the layout its markers follow. -/
structure Tokens where
  /-- The token that opens a marker. -/
  opener : Text
  /-- The token that closes a marker. -/
  closer : Text
  /-- The header by which an end marker is known. -/
  endWord : Text
  /-- Whether everything in front of the opener counts as indentation. Otherwise bodies are
  indented only as far as the word that stands in front of it. -/
  asComment : Bool
  /-- How many lines a header may take. -/
  headerRule : HeaderRule
  deriving DecidableEq

namespace Tokens

/-- Generation markers, unless configured otherwise. -/
def generation : Tokens where
  opener := "[[["
  closer := "]]]"
  endWord := "end"
  asComment := false
  headerRule := .any

/-- Edit markers, unless configured otherwise. Their headers are names and fit on one line. -/
def edit : Tokens where
  opener := "<<["
  closer := "]>>"
  endWord := "end"
  asComment := false
  headerRule := .inline

/-- A marker with this header, as messages quote it. -/
def quote (k : Tokens) (header : Text) : Text :=
  k.opener ++ [Text.space] ++ header ++ [Text.space] ++ k.closer

end Tokens

/-- All there is to know besides the text itself. -/
structure Settings where
  /-- The tokens of generation markers. -/
  generation : Tokens
  /-- The tokens of edit markers. -/
  edit : Tokens
  /-- Whether markers are left out of the output, if that is decided here. -/
  removeMarkers : Option Bool
  /-- How many evaluations of generated text may be nested in one another. -/
  maxDepth : Nat
  /-- What a line feed is written as in files, if that is decided here. -/
  newline : Option Text
  /-- The directories in which included templates are looked up. -/
  templateDirs : List String

namespace Settings

/-- The settings of a project that configures nothing. -/
def standard : Settings where
  generation := .generation
  edit := .edit
  removeMarkers := none
  maxDepth := 100
  newline := none
  templateDirs := []

/-- The tokens of a family. -/
def tokens (s : Settings) : Family → Tokens
  | .generation => s.generation
  | .edit => s.edit

/-- The variable of the environment that decides whether markers are removed where neither the
caller nor the settings do. -/
def removeMarkersVariable : String := "COGMARK_REMOVE_MARKERS"

/-- Whether markers are removed: as the settings say, or else exactly if the variable of the
environment holds the digit one. -/
def removesMarkers (s : Settings) (switch? : Option String) : Bool :=
  s.removeMarkers.getD (switch? == some "1")

end Settings

end Regen
