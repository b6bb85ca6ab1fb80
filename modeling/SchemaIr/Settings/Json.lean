import SchemaIr.Json.Decode
import SchemaIr.Settings.Value

/-! # Settings files in JSON

A layer of settings may be a JSON object. Integers beyond 64 bits with a sign are taken as decimals, and
`null` as no value where there could be one. -/

namespace SchemaIr.SettingValue
open Json

/-- The value of a number. -/
def ofNumber : Number → SettingValue
  | .whole n => if Bounds.fitsInt64 n then int n else float (Float.ofInt n)
  | .decimal x => float x

mutual

/-- Reads a value, of so many levels at most. -/
def decode (depth : Nat) : Decoder SettingValue
  | .null => .ok nothing
  | .bool b => .ok (bool b)
  | .number n => n.map ofNumber
  | .text s => s.map text
  | .array is => if depth = 0 then .error .tooDeep else (decodeItems (depth - 1) is).map list
  | .object ms => if depth = 0 then .error .tooDeep else (decodeMembers (depth - 1) [] ms).map table
  | .absent e => .error e
  | .broken reading _ => .error reading
  | .brokenText reading _ => .error reading

/-- Reads every item of an array. -/
def decodeItems (depth : Nat) : Items → Except Error (List SettingValue)
  | .cons item rest => do
    let v ← decode depth item
    let vs ← decodeItems depth rest
    pure (v :: vs)
  | .stop e => do
    failOn e.listError?
    pure []

/-- Reads every member of an object after others; the last member of a name wins. -/
def decodeMembers (depth : Nat) (done : List (String × SettingValue)) :
    Members → Except Error (List (String × SettingValue))
  | .cons key value rest => do
    let k ← key
    let v ← decode depth value
    decodeMembers depth (put k v done) rest
  | .stop e => do
    failOn e.objectError?
    pure done
  | .brokenKey reading _ => .error reading
  | .otherKey _ => .error .keyNotString

end

/-- The settings in a JSON text, which must be an object. -/
def ofJson? (s : String) : Option (List (String × SettingValue)) :=
  match Decode.text decode s with
  | .ok (table es) => some es
  | _ => none

end SchemaIr.SettingValue
