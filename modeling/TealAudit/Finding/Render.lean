import TealAudit.Detector.HighComplexity
import TealAudit.Finding.Snippet

/-!
# Findings in words

A finding is shown as a heading, the place, the lines it is about, the message, and then, where there
are any, what was measured, a suggestion and the file of its drawing.
-/

namespace TealAudit.Finding

/-- The word that a heading starts with, by impact. -/
def severity (impact : Impact) : Piece :=
  if impact = Impact.high || impact = Impact.medium then .styled .error "error: "
  else if impact = Impact.low || impact = Impact.optimization then .styled .warning "warning: "
  else .styled .info "info: "

/-- The last line that is mentioned in a finding. -/
def lastLine (f : Finding) : Nat := (f.ranges.map (·.last)).foldl max f.firstLine

/-- The number of columns for line numbers. -/
def numberWidth (f : Finding) : Nat := (Text.ofNat f.lastLine).length

/-- The heading and the place of a finding; without a line, only the file is named. -/
def heading (f : Finding) : List Piece :=
  let place : Text :=
    if f.firstLine > 0 then f.file ++ ":" ++ Text.ofNat f.firstLine ++ "\n" else f.file ++ "\n"
  [severity f.impact, .styled .detector f.detector,
    .plain (" (impact: " ++ f.impact.text ++ ", confidence: " ++ f.confidence.text ++ ")\n"),
    .styled .gutter (Text.spaces f.numberWidth ++ "--> "), .styled .file place]

/-- The space in front of what stands below the line numbers. -/
def padding (f : Finding) : Text := Text.spaces (f.numberWidth + 1)

/-- The message of a finding. -/
def messageLine (f : Finding) : List Piece :=
  [.styled .gutter (f.padding ++ "= "), .styled .message (f.message ++ "\n")]

/-- The complexity, in a finding of the detector that measures it. -/
def measureLine (f : Finding) : List Piece :=
  if f.detector = Detector.HighComplexity.descriptor.name then
    match f.metrics.find? Detector.HighComplexity.metric with
    | none => []
    | some n =>
      [.styled .gutter (f.padding ++ "| "),
        .styled .message ("Cyclomatic Complexity: " ++ Text.ofInt n ++ "\n")]
  else []

/-- The suggestion of a finding, below an empty line. -/
def suggestionLines (f : Finding) : List Piece :=
  if f.suggestion.isEmpty then []
  else .plain "\n" :: .styled .suggestion "Suggestion:\n" ::
    (Text.splitOn (Text.byte '\n') f.suggestion).flatMap fun line =>
      [.styled .gutter (f.padding ++ "| "), .plain (line ++ "\n")]

/-- A note of the file with the drawing of a finding, below an empty line. -/
def drawingNote (path : Option Text) : List Piece :=
  match path with
  | none | some [] => []
  | some path =>
    [.plain "\n", .styled .suggestion "Note: ",
      .styled .gutter ("implicated blocks are highlighted in " ++ path ++ "\n")]

/-- **A finding in pieces.** The source is given by its lines, the drawings by detector. -/
def pieces (source : List Text) (drawings : Dict Text) (f : Finding) : List Piece :=
  f.heading ++ Snippet.render f.numberWidth source f.ranges ++ f.messageLine ++ f.measureLine ++
    f.suggestionLines ++ drawingNote (drawings.find? f.detector) ++ [.plain "\n"]

/-- **Findings in words**, with their styles shown or not. -/
def renderAll (colour : Bool) (source : List Text) (drawings : Dict Text) (fs : List Finding) : Text :=
  Piece.renderAll colour (fs.flatMap (pieces source drawings))

end TealAudit.Finding
