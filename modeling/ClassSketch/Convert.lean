import ClassSketch.Document
import ClassSketch.Language
import ClassSketch.Options
import ClassSketch.Source.Reader

/-!
# Converting a diagram text

`generate` writes a diagram in a language, and `convert` reads a text and
writes what it says. A text is not converted when it is blank, when the
language is not known or when a step of indentation is not of a possible
width, in this order.
-/

namespace ClassSketch

open Layout

/-- The generated code and the warnings on the way. -/
structure Generated where
  code : String
  warnings : List String

/-- A width that is not possible, and the warnings up to where it was met. -/
structure Overwide where
  fault : WidthFault
  warnings : List String

/-- Writes a diagram where there is memory for `memory` spaces. -/
def generate (memory : Nat) (l : Language) (options : Options) (d : Diagram) :
    Except Overwide Generated :=
  let em := l.emitter
  let margin := { size := options.indentSize.getD em.indentSize, memory }
  let doc := Document.ofDiagram d em.hasPackages options.supertypesFirst
  match doc.texts em margin d with
  | .error (fault, sections) => .error { fault, warnings := sections.warnings }
  | .ok texts =>
    .ok {
      code := em.header ++ String.join texts ++ em.footer d
      warnings := doc.warnings }

inductive ConvertFault where
  | blankSource
  | options (f : Options.Fault)
  | unknownLanguage (name : String)
  | overwide (reading : Reading) (o : Overwide)

def ConvertFault.message : ConvertFault → String
  | blankSource => "PlantUML source cannot be empty"
  | options f => f.message
  | unknownLanguage name =>
    "Unsupported target language: \"" ++ name ++ "\". Supported languages: " ++
      ", ".intercalate (Language.all.map Language.name)
  | overwide _ o => o.fault.message

def languageOf (name : String) : Except ConvertFault Language :=
  (Language.ofName? name).elim (.error (.unknownLanguage name)) .ok

/-- What a conversion read and what it wrote. -/
structure Conversion where
  reading : Reading
  output : Generated

/-- Converts a text with given options. -/
def convert (memory : Nat) (text : String) (language : String) (options : Options) :
    Except ConvertFault Conversion :=
  if Text.allBlank text.toList then .error .blankSource
  else match languageOf language with
    | .error f => .error f
    | .ok l =>
      let reading := Reading.ofText text
      match generate memory l options reading.diagram with
      | .error o => .error (.overwide reading o)
      | .ok output => .ok { reading, output }

/-- Converts a text with options still to be read. Faults of the options come
between those of the text and those of the language. -/
def convertWith (memory : Nat) (text : String) (language : String) (settings : Setting) :
    Except ConvertFault Conversion :=
  if Text.allBlank text.toList then .error .blankSource
  else match Options.ofSetting settings with
    | .error f => .error (.options f)
    | .ok options => convert memory text language options

/-- A language and the options for it, both still to be read. Faults of the
language come first. -/
def generatorFor (language : String) (settings : Setting) :
    Except ConvertFault (Language × Options) :=
  match languageOf language with
  | .error f => .error f
  | .ok l =>
    match Options.ofSetting settings with
    | .error f => .error (.options f)
    | .ok options => .ok (l, options)

end ClassSketch
