import SchemaIr.Bounds
import SchemaIr.CommandLine.Arguments
import SchemaIr.CommandLine.Run
import SchemaIr.Decimal.Reading
import SchemaIr.Decimal.Shortest
import SchemaIr.Diagnostic.Basic
import SchemaIr.Diagnostic.Batch
import SchemaIr.Diagnostic.Document
import SchemaIr.Digest.Sha256
import SchemaIr.Directory.Discovery
import SchemaIr.Directory.Exclusion
import SchemaIr.Directory.FakeRoot
import SchemaIr.Directory.Fields
import SchemaIr.Disk.Basic
import SchemaIr.Disk.Path
import SchemaIr.Enumeration.Group
import SchemaIr.Enumeration.Set
import SchemaIr.Generation
import SchemaIr.Ir.Assembly
import SchemaIr.Ir.Basic
import SchemaIr.Ir.Checksum
import SchemaIr.Ir.Document
import SchemaIr.Json.Decode
import SchemaIr.Json.Error
import SchemaIr.Json.Number
import SchemaIr.Json.Source
import SchemaIr.Json.Token
import SchemaIr.Json.Value
import SchemaIr.Leafref.Index
import SchemaIr.Leafref.Path
import SchemaIr.ListKey.Basic
import SchemaIr.ListKey.Closest
import SchemaIr.Loading.Error
import SchemaIr.Loading.Library
import SchemaIr.Loading.Tree
import SchemaIr.Main
import SchemaIr.MappedType.Basic
import SchemaIr.MappedType.Document
import SchemaIr.MappedType.Resolve
import SchemaIr.Naming.Camel
import SchemaIr.Naming.Registry
import SchemaIr.Proofs.Diagnostic.Gathering
import SchemaIr.Proofs.Diagnostic.Order
import SchemaIr.Proofs.Diagnostic.Settle
import SchemaIr.Proofs.Directory.Candidates
import SchemaIr.Proofs.Directory.Collected
import SchemaIr.Proofs.Directory.Discovered
import SchemaIr.Proofs.Directory.Discovery
import SchemaIr.Proofs.Directory.FakeRoot
import SchemaIr.Proofs.Directory.Fields
import SchemaIr.Proofs.Directory.Incompressible
import SchemaIr.Proofs.Directory.Ownership
import SchemaIr.Proofs.Directory.Precedence
import SchemaIr.Proofs.Directory.Preference
import SchemaIr.Proofs.Directory.Targets
import SchemaIr.Proofs.Directory.Uncompressed
import SchemaIr.Proofs.Enumeration.Coverage
import SchemaIr.Proofs.Enumeration.Deduplication
import SchemaIr.Proofs.Enumeration.Groups
import SchemaIr.Proofs.Enumeration.Named
import SchemaIr.Proofs.Enumeration.Naming
import SchemaIr.Proofs.Enumeration.Origins
import SchemaIr.Proofs.Enumeration.Reference
import SchemaIr.Proofs.Enumeration.Rounds
import SchemaIr.Proofs.Enumeration.Sharing
import SchemaIr.Proofs.Enumeration.Values
import SchemaIr.Proofs.Generation.Closure
import SchemaIr.Proofs.Generation.Deduplication
import SchemaIr.Proofs.Generation.DirectoryTable
import SchemaIr.Proofs.Generation.EmptyUnions
import SchemaIr.Proofs.Generation.Enumerated
import SchemaIr.Proofs.Generation.Excluded
import SchemaIr.Proofs.Generation.Found
import SchemaIr.Proofs.Generation.Image
import SchemaIr.Proofs.Generation.Incompressible
import SchemaIr.Proofs.Generation.KeyFields
import SchemaIr.Proofs.Generation.Merging
import SchemaIr.Proofs.Generation.Owned
import SchemaIr.Proofs.Generation.Preference
import SchemaIr.Proofs.Generation.Prepare
import SchemaIr.Proofs.Generation.Reachable
import SchemaIr.Proofs.Generation.RootExtension
import SchemaIr.Proofs.Generation.StateExclusion
import SchemaIr.Proofs.Generation.Targets
import SchemaIr.Proofs.Generation.Unions
import SchemaIr.Proofs.Ir.Alike
import SchemaIr.Proofs.Ir.Assembly
import SchemaIr.Proofs.Ir.Built
import SchemaIr.Proofs.Ir.Checksum
import SchemaIr.Proofs.Ir.Document
import SchemaIr.Proofs.Ir.Interchange
import SchemaIr.Proofs.Ir.Misses
import SchemaIr.Proofs.Ir.Names
import SchemaIr.Proofs.Ir.Parallel
import SchemaIr.Proofs.Ir.Told
import SchemaIr.Proofs.Ir.Types
import SchemaIr.Proofs.Json.Compact
import SchemaIr.Proofs.Json.Parse
import SchemaIr.Proofs.Json.Quoted
import SchemaIr.Proofs.Json.Reading
import SchemaIr.Proofs.Json.RoundTrip
import SchemaIr.Proofs.Json.Scan
import SchemaIr.Proofs.Leafref.Chain
import SchemaIr.Proofs.Leafref.Index
import SchemaIr.Proofs.Leafref.Joined
import SchemaIr.Proofs.Leafref.Navigation
import SchemaIr.Proofs.Leafref.Path
import SchemaIr.Proofs.Leafref.Writing
import SchemaIr.Proofs.ListKey.Keys
import SchemaIr.Proofs.ListKey.Redirected
import SchemaIr.Proofs.Loading.Closure
import SchemaIr.Proofs.Loading.Imports
import SchemaIr.Proofs.Loading.Loaded
import SchemaIr.Proofs.Loading.Permuted
import SchemaIr.Proofs.Loading.ReadBack
import SchemaIr.Proofs.Loading.Tree
import SchemaIr.Proofs.MappedType.Ending
import SchemaIr.Proofs.MappedType.Failures
import SchemaIr.Proofs.MappedType.Flattening
import SchemaIr.Proofs.MappedType.Maps
import SchemaIr.Proofs.MappedType.Meets
import SchemaIr.Proofs.MappedType.Members
import SchemaIr.Proofs.MappedType.Names
import SchemaIr.Proofs.MappedType.Nested
import SchemaIr.Proofs.MappedType.Owner
import SchemaIr.Proofs.MappedType.Related
import SchemaIr.Proofs.MappedType.Resolved
import SchemaIr.Proofs.Naming.Camel
import SchemaIr.Proofs.Naming.Given
import SchemaIr.Proofs.Naming.Registry
import SchemaIr.Proofs.Schema.Alternatives
import SchemaIr.Proofs.Schema.DataChildren
import SchemaIr.Proofs.Schema.DataTree
import SchemaIr.Proofs.Schema.Descent
import SchemaIr.Proofs.Schema.DistinctPaths
import SchemaIr.Proofs.Schema.Grown
import SchemaIr.Proofs.Schema.Joined
import SchemaIr.Proofs.Schema.Regular
import SchemaIr.Proofs.Schema.Search
import SchemaIr.Proofs.Schema.Steps
import SchemaIr.Proofs.Schema.Unshadowed
import SchemaIr.Proofs.Schema.Walks
import SchemaIr.Proofs.Table.Lookup
import SchemaIr.Proofs.Table.Order
import SchemaIr.Proofs.Text.Blanks
import SchemaIr.Proofs.Text.Pieces
import SchemaIr.Proofs.Text.Uppercase
import SchemaIr.Schema.Document
import SchemaIr.Schema.Growth
import SchemaIr.Schema.Node
import SchemaIr.Schema.Search
import SchemaIr.Schema.Steps
import SchemaIr.Schema.Tree
import SchemaIr.Schema.TypeDescriptor
import SchemaIr.Schema.TypeDocument
import SchemaIr.Settings.Basic
import SchemaIr.Settings.Compression
import SchemaIr.Settings.Document
import SchemaIr.Settings.Environment
import SchemaIr.Settings.FileFormat
import SchemaIr.Settings.Ini
import SchemaIr.Settings.Json
import SchemaIr.Settings.Json5
import SchemaIr.Settings.Load
import SchemaIr.Settings.Ron
import SchemaIr.Settings.Step
import SchemaIr.Settings.Toml.File
import SchemaIr.Settings.Toml.Moment
import SchemaIr.Settings.Toml.Scalar
import SchemaIr.Settings.Toml.Table
import SchemaIr.Settings.Toml.Text
import SchemaIr.Settings.Value
import SchemaIr.Settings.Yaml.Cursor
import SchemaIr.Settings.Yaml.File
import SchemaIr.Settings.Yaml.Node
import SchemaIr.Settings.Yaml.Scalar
import SchemaIr.Settings.Yaml.Tag
import SchemaIr.Settings.Yaml.Token
import SchemaIr.Table
import SchemaIr.Text.Digits
import SchemaIr.Text.Hidden
import SchemaIr.Text.Letters
import SchemaIr.Text.Pieces
import SchemaIr.Text.Quoted
import SchemaIr.Text.Uppercase
