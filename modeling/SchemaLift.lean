import SchemaLift.Json.Reader
import SchemaLift.Main
import SchemaLift.Proofs.Audit.Chains
import SchemaLift.Proofs.Audit.Pointers
import SchemaLift.Proofs.Audit.Verdict
import SchemaLift.Proofs.Document.JsonText
import SchemaLift.Proofs.Document.Reordered
import SchemaLift.Proofs.Flatten.Captures
import SchemaLift.Proofs.Flatten.Dangling
import SchemaLift.Proofs.Flatten.Enums
import SchemaLift.Proofs.Flatten.FreeNames
import SchemaLift.Proofs.Flatten.Identifiers
import SchemaLift.Proofs.Flatten.Interchangeable
import SchemaLift.Proofs.Flatten.Meaning
import SchemaLift.Proofs.Flatten.Propagation
import SchemaLift.Proofs.Flatten.Recursion
import SchemaLift.Proofs.Flatten.Repeat
import SchemaLift.Proofs.Flatten.Reuse
import SchemaLift.Proofs.Kept.Documents
import SchemaLift.Proofs.Manifest.Unknown
