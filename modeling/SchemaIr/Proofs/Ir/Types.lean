import SchemaIr.Proofs.Ir.Built
import SchemaIr.Proofs.ListKey.Keys
import SchemaIr.Proofs.MappedType.Maps

/-! # The types of a result

A directory holds the types of its fields and of its list keys, and the members of unions in them
(`Directory.Holds`). All of them are mapped for a leaf under the name of the directory (`leafType_of_holds`), and so
stem from what leaves declare. -/

namespace SchemaIr

/-- A type occurs in a directory: in the type of a field, or in that of a list key. -/
inductive Directory.Holds (d : Directory) (m : MappedType) : Prop
  | field {name : String} {f : Field} {type : MappedType} : d.fields.get? name = some f → f.type = some type →
      m.Within type → d.Holds m
  | key {keys : ListKeys} {name : String} {type : MappedType} : d.keys = some keys →
      keys.types.get? name = some type → m.Within type → d.Holds m

/-- A type occurs in a result. -/
def Ir.Holds (ir : Ir) (m : MappedType) : Prop := ∃ path d, ir.directories.get? path = some d ∧ d.Holds m

namespace ListKey
variable {ctx : TypeContext} {compress : Bool} {list : NodeId} {owner : String}

/-! ### The types of keys -/

/-- The types of keys are those of leaves. -/
def Typed (ctx : TypeContext) (owner : String) (keys : ListKeys) : Prop :=
  ∀ key type, keys.types.get? key = some type → ∃ leaf, ctx.leafType leaf owner = some (.ok type)

theorem typed_of_listKeys {keys : ListKeys} (h : ctx.listKeys compress list owner = some (.ok (some keys))) :
    Typed ctx owner keys := by
  intro key type htype
  obtain ⟨-, -, -, hcomplete⟩ := listKeys_eq_keys_iff.mp h
  have hkey := (hcomplete.types key).mp (Table.contains_iff.mpr ⟨type, htype⟩)
  obtain ⟨leaf, type', -, -, htype', hleaf, -⟩ := hcomplete.entry key hkey
  obtain rfl := Option.some.inj (htype'.symm.trans htype)
  exact ⟨leaf, hleaf⟩

end ListKey

namespace Assembly.Input
variable {input : Input}

/-! ### The types of directories -/

/-- What a directory holds occurs in the type of a leaf, mapped under the name of the directory. -/
theorem leafType_of_holds {registry : NameRegistry} {ir : Ir} (h : (input.build registry).1 = some (.ok ir)) {path : String}
    {d : Directory} (hd : ir.directories.get? path = some d) {m : MappedType} (hm : d.Holds m) :
    ∃ leaf type, input.types.leafType leaf d.name = some (.ok type) ∧ m.Within type := by
  rcases built_of_directory h hd with ⟨id, -, hbuilt⟩ | ⟨_, nodes, -, hbuilt⟩
  · cases hm with
    | field hf htype hwithin =>
      obtain ⟨nodes, -, hfields⟩ := hbuilt.fields
      rw [hfields] at hf
      exact ⟨_, _, leafType_of_buildFields hf htype, hwithin⟩
    | key hkeys htype hwithin =>
      rw [hbuilt.keys] at hkeys
      obtain ⟨leaf, hleaf⟩ := ListKey.typed_of_listKeys (listKeys_of_buildKeys hkeys) _ _ htype
      exact ⟨leaf, _, hleaf, hwithin⟩
  · cases hm with
    | field hf htype hwithin =>
      rw [hbuilt.fields] at hf
      exact ⟨_, _, leafType_of_buildFields hf htype, hwithin⟩
    | key hkeys =>
      rw [hbuilt.keys] at hkeys
      cases hkeys

theorem stems_of_holds {registry : NameRegistry} {ir : Ir} (h : (input.build registry).1 = some (.ok ir)) {path : String}
    {d : Directory} (hd : ir.directories.get? path = some d) {m : MappedType} (hm : d.Holds m) :
    input.types.Stems d.name m.bare := by
  obtain ⟨leaf, type, htype, hwithin⟩ := leafType_of_holds h hd hm
  exact TypeContext.stems_of_leafType htype hwithin

theorem enumerations_of_build {registry : NameRegistry} {ir : Ir} (h : (input.build registry).1 = some (.ok ir)) :
    ir.enumerations = input.enums.enumerations := by
  obtain ⟨-, hsettle⟩ := build_eq_some_iff.mp h
  obtain ⟨-, rfl⟩ := Diagnostics.settle_eq_ok_iff.mp hsettle
  rfl

theorem notes_of_build {registry : NameRegistry} {ir : Ir} (h : (input.build registry).1 = some (.ok ir)) :
    ir.notes = (input.buildDirectories (input.names registry).1).diagnostics.sort := by
  obtain ⟨-, hsettle⟩ := build_eq_some_iff.mp h
  obtain ⟨-, rfl⟩ := Diagnostics.settle_eq_ok_iff.mp hsettle
  rfl

end Assembly.Input

end SchemaIr
