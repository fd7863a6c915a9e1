import BinderIdl.AtomicWrite
import BinderIdl.Brackets
import BinderIdl.CommandLine
import BinderIdl.CommandLine.Arguments
import BinderIdl.CommandLine.Text
import BinderIdl.Config
import BinderIdl.Diagnostic
import BinderIdl.Event
import BinderIdl.FileTree
import BinderIdl.Interface
import BinderIdl.Interface.Parse
import BinderIdl.Java.Check
import BinderIdl.Java.Expr
import BinderIdl.Java.Stmt
import BinderIdl.Keyword
import BinderIdl.KnownLists
import BinderIdl.KnownTypes
import BinderIdl.Log
import BinderIdl.Log.Time
import BinderIdl.Main
import BinderIdl.Marshal.Category
import BinderIdl.Marshal.Cell
import BinderIdl.Marshal.Create
import BinderIdl.Marshal.Desk
import BinderIdl.Marshal.Operation
import BinderIdl.Marshal.Scheme
import BinderIdl.Marshal.Temporary
import BinderIdl.Marshal.Update
import BinderIdl.Marshal.Write
import BinderIdl.Nature
import BinderIdl.Path
import BinderIdl.Project
import BinderIdl.Proofs.Interface.Checked
import BinderIdl.Proofs.Interface.Derivation
import BinderIdl.Proofs.Interface.Grammar
import BinderIdl.Proofs.Interface.Positions
import BinderIdl.Proofs.Interface.Reading
import BinderIdl.Proofs.Machine.Calls
import BinderIdl.Proofs.Machine.Execution
import BinderIdl.Proofs.Machine.Rules
import BinderIdl.Proofs.Machine.Value
import BinderIdl.Proofs.Marshal.Emission
import BinderIdl.Proofs.Marshal.Encode
import BinderIdl.Proofs.Marshal.Independence
import BinderIdl.Proofs.Marshal.Reads
import BinderIdl.Proofs.Marshal.Temporary
import BinderIdl.Proofs.Stub.Calls
import BinderIdl.Proofs.Stub.ParcelOrder
import BinderIdl.Proofs.Stub.Queries
import BinderIdl.Proofs.Stub.SharedInterface
import BinderIdl.Proofs.Stub.TemporaryNames
import BinderIdl.Proofs.Stub.Transactions
import BinderIdl.Proofs.Wire.Create
import BinderIdl.Proofs.Wire.Format
import BinderIdl.Proofs.Wire.Frame
import BinderIdl.Proofs.Wire.RoundTrip
import BinderIdl.Proofs.Wire.UuidRead
import BinderIdl.Proofs.Wire.UuidRoundTrip
import BinderIdl.Proofs.Wire.UuidWrite
import BinderIdl.Proofs.Wire.Write
import BinderIdl.Registry
import BinderIdl.Setting
import BinderIdl.Setting.Read
import BinderIdl.SourceFolder
import BinderIdl.Stub.Code
import BinderIdl.Stub.Dispatch
import BinderIdl.Stub.Request
import BinderIdl.Stub.Text
import BinderIdl.Text.Blank
import BinderIdl.Text.Cased
import BinderIdl.Text.Console
import BinderIdl.Text.Lines
import BinderIdl.Text.Loose
import BinderIdl.Text.Lowercase
import BinderIdl.Text.Printable
import BinderIdl.Text.Utf8
import BinderIdl.Text.Word
import BinderIdl.Token
import BinderIdl.Token.Scan
import BinderIdl.TypeName
import BinderIdl.TypeName.Parse
import BinderIdl.TypeParameter
import BinderIdl.Proofs.Wire.Update
import BinderIdl.Proofs.Wire.UpdateRoundTrip
import BinderIdl.Proofs.Files.Names
import BinderIdl.Proofs.Files.Paths
import BinderIdl.Proofs.Files.Tree
import BinderIdl.Proofs.Files.AtomicWrite
import BinderIdl.Proofs.Project.Layout
import BinderIdl.Proofs.Project.Compile
import BinderIdl.Proofs.Token.Identifier
import BinderIdl.Proofs.Project.Confinement
import BinderIdl.Proofs.Files.Faults
import BinderIdl.Proofs.Stub.Faults
import BinderIdl.Proofs.Project.Isolation
import BinderIdl.Proofs.Files.Folders
import BinderIdl.Proofs.Files.Patch
import BinderIdl.Proofs.Stub.Lookups
import BinderIdl.Proofs.Project.Reads
import BinderIdl.Proofs.Project.Plan
import BinderIdl.Proofs.Project.Order
import BinderIdl.Proofs.Java.Bare
import BinderIdl.Proofs.Java.Nesting
import BinderIdl.Proofs.Java.Plain
import BinderIdl.Proofs.Marshal.Plain
import BinderIdl.Proofs.Interface.Plain
import BinderIdl.Proofs.Stub.Plain
import BinderIdl.Proofs.Stub.Banner
import BinderIdl.Proofs.Stub.Lines
import BinderIdl.Proofs.Stub.WellFormed
import BinderIdl.Proofs.Stub.Package
import BinderIdl.Proofs.Stub.Parameters
import BinderIdl.Proofs.Token.Segmentation
import BinderIdl.Proofs.TypeName.Respacing
import BinderIdl.Proofs.TypeName.Reading
import BinderIdl.Proofs.TypeName.RoundTrip
import BinderIdl.Proofs.Marshal.Names
import BinderIdl.Proofs.Stub.Oneway
import BinderIdl.Proofs.Files.Content
import BinderIdl.Proofs.Stub.Accepted
import BinderIdl.Proofs.Project.Validation
import BinderIdl.Proofs.Registry.Precedence
import BinderIdl.Proofs.Marshal.Support
import BinderIdl.Proofs.Marshal.Bounds
import BinderIdl.Proofs.Marshal.Declaration
import BinderIdl.Proofs.Interface.Unplaced
import BinderIdl.Proofs.Token.Layout
import BinderIdl.Proofs.Nature.Declarations
import BinderIdl.Proofs.Marshal.Elements
import BinderIdl.Proofs.Wire.Absent
import BinderIdl.Proofs.Token.Obstruction
import BinderIdl.Proofs.Files.Atomicity
import BinderIdl.Proofs.Token.Places
import BinderIdl.Proofs.Stub.Locations
import BinderIdl.Proofs.Interface.Recognition
import BinderIdl.Proofs.Interface.Viability
import BinderIdl.Proofs.Brackets.Parts
import BinderIdl.Proofs.Text.Blanks
import BinderIdl.Proofs.TypeName.NormalForm
import BinderIdl.Proofs.Brackets.Balance
import BinderIdl.Proofs.Brackets.Cuts
import BinderIdl.Proofs.TypeParameter.Block
import BinderIdl.Proofs.Java.Pieces
import BinderIdl.Proofs.Text.SmallLetters
import BinderIdl.Proofs.Project.Place
