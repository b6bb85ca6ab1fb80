import SchemaIr.Diagnostic.Batch
import SchemaIr.Json.Decode

/-! # Diagnostics in documents

How diagnostics are written in a document and read from one. A diagnostic without context leaves it out. -/

namespace SchemaIr
open Json

def Diagnostic.toJson (d : Diagnostic) : Value :=
  .obj ([("path", .str d.path), ("code", .str d.code.name), ("message", .str d.message)] ++
    Value.listMember "context" .str d.context)

def Diagnostics.toJson (ds : Diagnostics) : Value := .obj [("items", .arr (ds.items.map Diagnostic.toJson))]

def DiagnosticCode.decode (depth : Nat) : Decoder DiagnosticCode := Decode.choice depth (Decode.named all name)

def Diagnostic.decode (depth : Nat) : Decoder Diagnostic :=
  Decode.record "DiagnosticItem" depth
    [Decode.field "path" Decode.string fun path d => { d with path },
      Decode.field "code" (DiagnosticCode.decode (depth - 1)) fun code d => { d with code },
      Decode.field "message" Decode.string fun message d => { d with message },
      Decode.fieldOr "context" (Decode.list (depth - 1) Decode.string) fun context d => { d with context }]
    ⟨"", .duplicateField, "", []⟩

def Diagnostics.decode (depth : Nat) : Decoder Diagnostics :=
  Decode.record "Diagnostics" depth
    [Decode.field "items" (Decode.list (depth - 1) (Diagnostic.decode (depth - 2))) fun items ds =>
      { ds with items }]
    ∅

end SchemaIr
