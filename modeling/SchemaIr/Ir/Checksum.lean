import SchemaIr.Digest.Sha256
import SchemaIr.Ir.Document

/-! # Checksums

The checksum of a result is the SHA-256 digest of its compact JSON, so that equal results have equal
checksums. -/

namespace SchemaIr.Ir

/-- The compact JSON of a result, as bytes. -/
def bytes (ir : Ir) : ByteArray := ir.toJson.compact.toUTF8

/-- The checksum of a result. -/
def checksum (ir : Ir) : String := Sha256.hexDigest ir.bytes

/-- A checksum is that of a result. -/
def verifies (sum : String) (ir : Ir) : Bool := ir.checksum == sum

end SchemaIr.Ir
