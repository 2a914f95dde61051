import SpatialIndex.Journal
import SpatialIndex.Journal.Calendar

/-!
# Entries on the console

An entry is printed on one line: its time, its label and its source in brackets, then the message
and, when the reporter named it, the place. On a colored console the label and the source are
colored by terminal codes.
-/
namespace SpatialIndex.Console

/-- The terminal code that ends a style. -/
def reset : String := "\x1b[0m"

/-- The terminal codes of the label of a severity. -/
def labelStyle : Severity → String
  | .trace => "90"
  | .debug => "36"
  | .info => "32"
  | .warn => "33"
  | .error => "1;31"

/-- The terminal code of a source. -/
def sourceStyle : String := "94"

/-- A text in a style. Where the text itself ends a style, the style begins again. -/
def styled (style text : String) : String :=
  let start := "\x1b[" ++ style ++ "m"
  start ++ (reset ++ start).intercalate (text.splitOn reset) ++ reset

/-- An entry without its time. -/
def line (colored : Bool) (entry : Entry) : String :=
  let style (codes text : String) : String := if colored then styled codes text else text
  let place :=
    match entry.location with
    | some (.place file line) => " (" ++ file ++ ":" ++ toString line ++ ")"
    | _ => ""
  "[" ++ style (labelStyle entry.severity) entry.severity.label ++ "] [" ++
    style sourceStyle entry.source ++ "] " ++ entry.message ++ place

/-- An entry of a time in milliseconds since the beginning of 1970. -/
def timedLine (colored : Bool) (milliseconds : Int) (entry : Entry) : Option String :=
  (Timestamp.text? milliseconds).map fun time => "[" ++ time ++ "] " ++ line colored entry

end SpatialIndex.Console
