import ClassSketch.Main
import ClassSketch.Proofs.Membership
import ClassSketch.Proofs.Greedy
import ClassSketch.Proofs.Order
import ClassSketch.Proofs.Sections
import ClassSketch.Proofs.Scan
import ClassSketch.Proofs.LineBreak
import ClassSketch.Proofs.Comments
import ClassSketch.Proofs.Numbering
import ClassSketch.Proofs.Tokens
import ClassSketch.Proofs.Braces
import ClassSketch.Proofs.Types
import ClassSketch.Proofs.Outline.Basic
import ClassSketch.Proofs.Outline.Line
import ClassSketch.Proofs.Outline.Name
import ClassSketch.Proofs.Outline.Header
import ClassSketch.Proofs.Outline.Member
import ClassSketch.Proofs.Outline.Body
import ClassSketch.Proofs.Outline.Link
import ClassSketch.Proofs.Outline.Reading
import ClassSketch.Proofs.Composition
import ClassSketch.Proofs.Nesting.Basic
import ClassSketch.Proofs.Nesting.Listing
import ClassSketch.Proofs.Supertypes
import ClassSketch.Proofs.Nesting.Targets
import ClassSketch.Proofs.Nesting.Member
import ClassSketch.Proofs.Nesting.Reading
import ClassSketch.Proofs.Indentation
import ClassSketch.Proofs.Declarations.Lines
import ClassSketch.Proofs.Declarations.Reading
import ClassSketch.Proofs.Declarations.Texts
import ClassSketch.Proofs.WellFormed.Basic
import ClassSketch.Proofs.WellFormed.Reading
import ClassSketch.Proofs.Blocks.Listing
import ClassSketch.Proofs.Blocks.Reading
import ClassSketch.Proofs.CommandLine.Arguments
import ClassSketch.Proofs.CommandLine.Folder
import ClassSketch.Proofs.Namespaces
import ClassSketch.Proofs.CommandLine.Run
import ClassSketch.Proofs.Arrangement
import ClassSketch.Proofs.ArrowLine
import ClassSketch.Proofs.TypedHeader
import ClassSketch.Proofs.Hints
import ClassSketch.Proofs.GluedArrow
import ClassSketch.Proofs.TypeReading
import ClassSketch.Proofs.SpacedType
import ClassSketch.Proofs.ParameterList
import ClassSketch.Proofs.MemberForm
import ClassSketch.Proofs.Outline.Marking
import ClassSketch.Proofs.MemberSpelling
import ClassSketch.Proofs.OpeningBrace
import ClassSketch.Proofs.MemberGrowth
import ClassSketch.Proofs.ReturnStatement
import ClassSketch.Proofs.Skipping
import ClassSketch.Proofs.OpenClass
import ClassSketch.Proofs.Fragments
import ClassSketch.Proofs.PackageModules
