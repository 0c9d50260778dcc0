import SqlTree.Function
import SqlTree.Tree.Build
import SqlTree.Tree.Equality
import SqlTree.Dialect.Builtin
import SqlTree.Query.Compile
import SqlTree.Query.Json
import SqlTree.Proofs.Faults
import SqlTree.Proofs.Pieces
import SqlTree.Proofs.Writing
import SqlTree.Proofs.Literals
import SqlTree.Proofs.Fragments
import SqlTree.Proofs.Lexemes
import SqlTree.Proofs.Marks
import SqlTree.Proofs.Normal
import SqlTree.Proofs.Reader
import SqlTree.Proofs.Reading
import SqlTree.Proofs.Grammar
import SqlTree.Proofs.Clauses
import SqlTree.Proofs.Readable
import SqlTree.Proofs.Independence
import SqlTree.Proofs.Holes
import SqlTree.Proofs.Names
import SqlTree.Proofs.Inlined
import SqlTree.Proofs.Comments
import SqlTree.Proofs.Payloads
import SqlTree.Proofs.Comparison
import SqlTree.Proofs.Parts
import SqlTree.Proofs.Appending
import SqlTree.Proofs.Nesting
import SqlTree.Proofs.Respelling
import SqlTree.Proofs.Growth
import SqlTree.Proofs.Equality
import SqlTree.Proofs.Events
import SqlTree.Proofs.Decoding
import SqlTree.Proofs.Catalog
import SqlTree.Proofs.Yield
