import SchemaIr.Diagnostic.Document
import SchemaIr.MappedType.Document
import SchemaIr.Proofs.Json.Reading
import SchemaIr.Schema.Document

/-! # Documents that are read back

Every document is read back from what is written for it, as a value and as a compact text, so that what a text is read
as can be written and read again (`documents_roundTrip`). The numbers in a document must be those of 64 bits, as they
are in all that is read (`Fits`). -/

namespace SchemaIr
open Json

/-! ### Names -/

theorem TypeKind.ofName_name (k : TypeKind) : ofName k.name = k := by
  cases k <;> decide

theorem NodeKind.ofName_name (k : NodeKind) : ofName k.name = k := by
  cases k <;> decide

theorem DiagnosticCode.named_name (c : DiagnosticCode) : Decode.named all name c.name = .ok c := by
  cases c <;> rfl

/-! ### Parts of types -/

/-- The number that an enumeration states for a value has 64 bits. -/
def EnumValue.Fits (v : EnumValue) : Prop := ∀ n ∈ v.value, Bounds.minInt64 ≤ n ∧ n ≤ Bounds.maxInt64

theorem EnumValue.reads_decode {v : EnumValue} (h : v.Fits) (depth : Nat) : Reads depth (decode depth) v.toJson v := by
  refine .record (by simp [Decode.field, Decode.fieldOr]) (.field (.string _ _) ?_)
  rw [← List.append_nil (Value.member? ..)]
  exact .option (fun n hn => .int64 _ (h n hn)) (fun _ _ h => by cases h) rfl .done

theorem TypedefRef.reads_decode (r : TypedefRef) (depth : Nat) : Reads depth (decode depth) r.toJson r :=
  .record (by simp [Decode.field]) (.field (.string _ _) (.field (.string _ _) .done))

theorem IdentityRef.reads_decode (r : IdentityRef) (depth : Nat) : Reads depth (decode depth) r.toJson r :=
  .record (by simp [Decode.field, Decode.fieldOr])
    (.field (.string _ _) (.fieldOr (.string _ _) (.fieldOr (.list fun s _ => .string _ s) .done)))

/-! ### Types -/

namespace TypeDescriptor

/-- All numbers that the enumerations in a type state have 64 bits. -/
inductive Fits : TypeDescriptor → Prop
  | intro {t : TypeDescriptor} (values : ∀ v ∈ t.values, v.Fits) (members : ∀ m ∈ t.members, Fits m) : Fits t

theorem toJsons_eq (ts : List TypeDescriptor) : toJsons ts = ts.map toJson := by
  induction ts with
  | nil => rfl
  | cons t rest ih => rw [toJsons, List.map_cons, ih]

theorem toJson_eq (t : TypeDescriptor) : t.toJson = .obj (t.jsonMembers (t.members.map toJson)) := by
  cases t
  rw [toJson, toJsons_eq]
  rfl

theorem written_fields {t : TypeDescriptor} {depth : Nat} {d : Decoder (List TypeDescriptor)}
    (values : ∀ v ∈ t.values, v.Fits) (members : Reads depth d (.arr (t.members.map toJson)) t.members) :
    Written depth (fields depth d) blank (t.jsonMembers (t.members.map toJson)) t := by
  obtain ⟨kind, typedef, ms, path, vs, identity, default⟩ := t
  have hkind : (Except.ok (TypeKind.ofName kind.name) : Except Error TypeKind) = .ok kind := by
    rw [TypeKind.ofName_name]
  have hmembers : Reads depth d (.arr ((ms.map toJson).map id)) ms := by rwa [List.map_id]
  have hvalues : Reads depth (Decode.list depth (EnumValue.decode (depth - 1))) (.arr (vs.map EnumValue.toJson)) vs :=
    .list fun v hv => EnumValue.reads_decode (values v hv) _
  rw [jsonMembers, ← List.append_nil (_ ++ Value.member? "default" _ _)]
  simp only [List.append_assoc]
  refine .field (.choice _ _ hkind) (.option (fun r _ => r.reads_decode depth) (fun _ _ h => by cases h) rfl
    (.list hmembers (fun h => ?_)
    (.option (fun s _ => .string _ s) (fun _ _ h => by cases h) rfl
    (.list hvalues (fun h => ?_)
    (.option (fun i _ => i.reads_decode depth) (fun _ _ h => by cases h) rfl
    (.option (fun s _ => .string _ s) (fun _ _ h => by cases h) rfl .done))))))
  · rw [List.map_eq_nil_iff.mp h]
    rfl
  · obtain rfl : vs = [] := h
    rfl

theorem reads_decodeMembers {ms : List TypeDescriptor}
    (h : ∀ m ∈ ms, ∀ depth, Reads depth (decode depth) m.toJson m) (depth : Nat) :
    Reads depth (decodeMembers depth) (.arr (ms.map toJson)) ms := by
  cases depth with
  | zero => exact .arr_zero
  | succ depth => exact .list fun m hm => h m hm depth

theorem reads_decode {t : TypeDescriptor} (h : t.Fits) (depth : Nat) : Reads depth (decode depth) t.toJson t := by
  induction h generalizing depth with
  | @intro t values members ih =>
    rw [toJson_eq]
    cases depth with
    | zero => exact .obj_zero
    | succ depth =>
      exact .record (by simp [fields, Decode.field, Decode.fieldOr])
        (written_fields values (reads_decodeMembers ih depth))

end TypeDescriptor

/-! ### Nodes and modules -/

namespace NodeDocument

/-- All numbers that the types of a node, and of those below it, state have 64 bits. -/
inductive Fits : NodeDocument → Prop
  | intro {n : NodeDocument} (type : ∀ t ∈ n.type, t.Fits) (children : ∀ c ∈ n.children, Fits c) : Fits n

theorem toJsons_eq (ns : List NodeDocument) : toJsons ns = ns.map toJson := by
  induction ns with
  | nil => rfl
  | cons n rest ih => rw [toJsons, List.map_cons, ih]

theorem reads_decodeChildren {ns : List NodeDocument}
    (h : ∀ n ∈ ns, ∀ depth, Reads depth (decode depth) n.toJson n) (depth : Nat) :
    Reads depth (decodeChildren depth) (.arr (ns.map toJson)) ns := by
  cases depth with
  | zero => exact .arr_zero
  | succ depth => exact .list fun n hn => h n hn depth

theorem reads_decode {n : NodeDocument} (h : n.Fits) (depth : Nat) : Reads depth (decode depth) n.toJson n := by
  induction h generalizing depth with
  | @intro n type children ih =>
    obtain ⟨name, kind, ns, t, key, config, module, default⟩ := n
    rw [toJson, toJsons_eq]
    cases depth with
    | zero => exact .obj_zero
    | succ depth =>
      exact .record (by simp [fields, Decode.field, Decode.fieldOr]) (.field (.string _ _)
        (.field (.choice _ _ (congrArg Except.ok (NodeKind.ofName_name kind)))
        (.fieldOr (reads_decodeChildren ih depth)
        (.fieldOr (.optional (fun t ht => TypeDescriptor.reads_decode (type t ht) depth)
          fun t _ => by simp [TypeDescriptor.toJson_eq])
        (.fieldOr (.optional (fun s _ => .string _ s) fun _ _ => by simp)
        (.fieldOr (.optional (fun b _ => .boolean _ b) fun _ _ => by simp)
        (.fieldOr (.optional (fun s _ => .string _ s) fun _ _ => by simp)
        (.fieldOr (.optional (fun s _ => .string _ s) fun _ _ => by simp) .done))))))))

end NodeDocument

namespace ModuleDocument

/-- All numbers that the types of a module's nodes state have 64 bits. -/
def Fits (m : ModuleDocument) : Prop := ∀ n ∈ m.children, n.Fits

theorem reads_decode {m : ModuleDocument} (h : m.Fits) (depth : Nat) : Reads depth (decode depth) m.toJson m := by
  have hchildren := NodeDocument.reads_decodeChildren (fun n hn => NodeDocument.reads_decode (h n hn)) (depth - 1)
  rw [toJson, NodeDocument.toJsons_eq]
  exact .record (by simp [Decode.field, Decode.fieldOr]) (.field (.string _ _)
    (.field (.string _ _)
    (.fieldOr (.optional (fun s _ => .string _ s) fun _ _ => by simp)
    (.fieldOr (.list fun s _ => .string _ s)
    (.fieldOr hchildren .done)))))

end ModuleDocument

/-! ### Mapped types -/

namespace MappedType

/-- All positions in a type have 64 bits. -/
inductive Fits : MappedType → Prop
  | intro {m : MappedType} (positions : ∀ name p, m.positions.get? name = some p → p ≤ Bounds.maxNat64)
    (members : ∀ c ∈ m.members, Fits c) : Fits m

theorem toJsons_eq (ms : List MappedType) : toJsons ms = ms.map toJson := by
  induction ms with
  | nil => rfl
  | cons m rest ih => rw [toJsons, List.map_cons, ih]

theorem toJson_eq (m : MappedType) : m.toJson = .obj (m.jsonMembers (m.members.map toJson)) := by
  cases m
  rw [toJson, toJsons_eq]
  rfl

/-- The positions are left out where there are none. -/
theorem written_tableMember {depth : Nat} {t : Table Nat} (h : ∀ name p, t.get? name = some p → p ≤ Bounds.maxNat64)
    {name : String} {w : Table Nat → MappedType → MappedType} {fs : List (Decode.Field MappedType)} {r r' : MappedType}
    {ms : List (String × Value)} (hempty : t = ∅ → w t r = r) (hrest : Written depth fs (w t r) ms r') :
    Written depth (Decode.fieldOr name (Decode.table depth Decode.natural) w :: fs) r (tableMember name t ++ ms)
      r' := by
  unfold tableMember
  split
  · rename_i hnone
    exact .omitted rfl (hempty (Table.isEmpty_iff.mp hnone) ▸ hrest)
  · have hentries : ∀ e ∈ t.entries, Reads (depth - 1) Decode.natural (.int e.2) e.2 := fun e he =>
      .natural _ (h _ _ (Table.get?_eq_some_iff.mpr he))
    exact .fieldOr (.table (f := fun n : Nat => .int n) hentries) hrest

theorem written_fields {m : MappedType} {depth : Nat} {d : Decoder (List MappedType)}
    (positions : ∀ name p, m.positions.get? name = some p → p ≤ Bounds.maxNat64)
    (members : Reads depth d (.arr (m.members.map toJson)) m.members) :
    Written depth (fields depth d) unresolved (m.jsonMembers (m.members.map toJson)) m := by
  obtain ⟨native, ps, ms, isEnumerated, zero, default⟩ := m
  have hmembers : Reads depth d (.arr ((ms.map toJson).map id)) ms := by rwa [List.map_id]
  rw [jsonMembers, ← List.append_nil (_ ++ Value.member? "default_value" _ _)]
  simp only [List.append_assoc]
  refine .field (.string _ _) (written_tableMember positions (fun h => ?_)
    (.list hmembers (fun h => ?_)
    (.fieldOr (.boolean _ _)
    (.field (.string _ _)
    (.option (fun s _ => .string _ s) (fun _ _ h => by cases h) rfl .done)))))
  · obtain rfl : ps = ∅ := h
    rfl
  · rw [List.map_eq_nil_iff.mp h]
    rfl

theorem reads_decodeMembers {ms : List MappedType} (h : ∀ m ∈ ms, ∀ depth, Reads depth (decode depth) m.toJson m)
    (depth : Nat) : Reads depth (decodeMembers depth) (.arr (ms.map toJson)) ms := by
  cases depth with
  | zero => exact .arr_zero
  | succ depth => exact .list fun m hm => h m hm depth

theorem reads_decode {m : MappedType} (h : m.Fits) (depth : Nat) : Reads depth (decode depth) m.toJson m := by
  induction h generalizing depth with
  | @intro m positions members ih =>
    rw [toJson_eq]
    cases depth with
    | zero => exact .obj_zero
    | succ depth =>
      exact .record (by simp [fields, Decode.field, Decode.fieldOr])
        (written_fields positions (reads_decodeMembers ih depth))

end MappedType

/-! ### Diagnostics -/

theorem Diagnostic.reads_decode (d : Diagnostic) (depth : Nat) : Reads depth (decode depth) d.toJson d := by
  have hcontext : Reads (depth - 1) (Decode.list (depth - 1) Decode.string) (.arr (d.context.map .str)) d.context :=
    .list fun s _ => .string _ s
  rw [toJson, ← List.append_nil (Value.listMember ..)]
  refine .record (by simp [Decode.field, Decode.fieldOr]) (.field (.string _ _)
    (.field (.choice _ _ (DiagnosticCode.named_name d.code))
    (.field (.string _ _)
    (.list hcontext (fun h => ?_) .done))))
  rw [h]

theorem Diagnostics.reads_decode (ds : Diagnostics) (depth : Nat) : Reads depth (decode depth) ds.toJson ds :=
  .record (by simp [Decode.field]) (.field (.list fun d _ => d.reads_decode _) .done)

/-! ### Numbers of what is read -/

theorem EnumValue.yields_decode (depth : Nat) : Yields (decode depth) EnumValue.Fits := by
  refine .record (List.forall_mem_cons.mpr ⟨?_, List.forall_mem_singleton.mpr ?_⟩) fun n hn => by cases hn
  · exact .of_free rfl fun _ _ h => h
  · exact .of_yields rfl (.optional (.integer _ _ _)) fun _ _ h _ => h

namespace TypeDescriptor

theorem Fits.of_eq {t u : TypeDescriptor} (h : t.Fits) (hvalues : u.values = t.values)
    (hmembers : u.members = t.members) : u.Fits := by
  cases h with
  | intro values members => exact .intro (hvalues ▸ values) (hmembers ▸ members)

theorem fits_blank : blank.Fits := .intro (fun _ h => by cases h) fun _ h => by cases h

/-- Of the fields of a type, only its values and members say something about numbers. -/
theorem keeps_fields {depth : Nat} {d : Decoder (List TypeDescriptor)} (hd : Yields d fun ms => ∀ m ∈ ms, m.Fits) :
    ∀ f ∈ fields depth d, Keeps f Fits := by
  have hvalues : Yields (Decode.list depth (EnumValue.decode (depth - 1))) fun vs => ∀ v ∈ vs, v.Fits :=
    .list (EnumValue.yields_decode _)
  simp only [fields, List.forall_mem_cons]
  refine ⟨.of_free rfl fun _ _ h => h.of_eq rfl rfl, .of_free rfl fun _ _ h => h.of_eq rfl rfl,
    .of_yields rfl hd fun _ _ hms h => ?_, .of_free rfl fun _ _ h => h.of_eq rfl rfl,
    .of_yields rfl hvalues fun _ _ hvs h => ?_, .of_free rfl fun _ _ h => h.of_eq rfl rfl,
    .of_free rfl fun _ _ h => h.of_eq rfl rfl, List.forall_mem_nil _⟩
  · cases h with
    | intro values _ => exact .intro values hms
  · cases h with
    | intro _ members => exact .intro hvs members

mutual

theorem yields_decode : ∀ depth, Yields (decode depth) Fits
  | 0 => .record (keeps_fields (.list fun _ _ h => by cases h)) fits_blank
  | depth + 1 => .record (keeps_fields (yields_decodeMembers depth)) fits_blank

theorem yields_decodeMembers : ∀ depth, Yields (decodeMembers depth) fun ms => ∀ m ∈ ms, m.Fits
  | 0 => .list fun _ _ h => by cases h
  | depth + 1 => .list (yields_decode depth)

end

end TypeDescriptor

namespace NodeDocument

theorem Fits.of_eq {n u : NodeDocument} (h : n.Fits) (htype : u.type = n.type) (hchildren : u.children = n.children) :
    u.Fits := by
  cases h with
  | intro type children => exact .intro (htype ▸ type) (hchildren ▸ children)

theorem fits_blank : blank.Fits := .intro (fun _ h => by cases h) fun _ h => by cases h

theorem keeps_fields {depth : Nat} {d : Decoder (List NodeDocument)} (hd : Yields d fun ns => ∀ n ∈ ns, n.Fits) :
    ∀ f ∈ fields depth d, Keeps f Fits := by
  have htype : Yields (Decode.optional (TypeDescriptor.decode depth)) fun o => ∀ t ∈ o, t.Fits :=
    .optional (TypeDescriptor.yields_decode depth)
  simp only [fields, List.forall_mem_cons]
  refine ⟨.of_free rfl fun _ _ h => h.of_eq rfl rfl, .of_free rfl fun _ _ h => h.of_eq rfl rfl,
    .of_yields rfl hd fun _ _ hns h => ?_, .of_yields rfl htype fun _ _ ht h => ?_,
    .of_free rfl fun _ _ h => h.of_eq rfl rfl, .of_free rfl fun _ _ h => h.of_eq rfl rfl,
    .of_free rfl fun _ _ h => h.of_eq rfl rfl, .of_free rfl fun _ _ h => h.of_eq rfl rfl, List.forall_mem_nil _⟩
  · cases h with
    | intro type _ => exact .intro type hns
  · cases h with
    | intro _ children => exact .intro ht children

mutual

theorem yields_decode : ∀ depth, Yields (decode depth) Fits
  | 0 => .record (keeps_fields (.list fun _ _ h => by cases h)) fits_blank
  | depth + 1 => .record (keeps_fields (yields_decodeChildren depth)) fits_blank

theorem yields_decodeChildren : ∀ depth, Yields (decodeChildren depth) fun ns => ∀ n ∈ ns, n.Fits
  | 0 => .list fun _ _ h => by cases h
  | depth + 1 => .list (yields_decode depth)

end

end NodeDocument

theorem ModuleDocument.yields_decode (depth : Nat) : Yields (decode depth) ModuleDocument.Fits := by
  refine .record ?_ fun _ h => by cases h
  simp only [List.forall_mem_cons]
  exact ⟨.of_free rfl fun _ _ h => h, .of_free rfl fun _ _ h => h, .of_free rfl fun _ _ h => h,
    .of_free rfl fun _ _ h => h, .of_yields rfl (NodeDocument.yields_decodeChildren _) fun _ _ hns _ => hns,
    List.forall_mem_nil _⟩

namespace MappedType

theorem Fits.of_eq {m u : MappedType} (h : m.Fits) (hpositions : u.positions = m.positions)
    (hmembers : u.members = m.members) : u.Fits := by
  cases h with
  | intro positions members => exact .intro (hpositions ▸ positions) (hmembers ▸ members)

theorem fits_unresolved : unresolved.Fits := .intro (fun _ _ h => by cases h) fun _ h => by cases h

theorem keeps_fields {depth : Nat} {d : Decoder (List MappedType)} (hd : Yields d fun ms => ∀ m ∈ ms, m.Fits) :
    ∀ f ∈ fields depth d, Keeps f Fits := by
  simp only [fields, List.forall_mem_cons]
  refine ⟨.of_free rfl fun _ _ h => h.of_eq rfl rfl, .of_yields rfl (.table .natural) fun _ _ hps h => ?_,
    .of_yields rfl hd fun _ _ hms h => ?_, .of_free rfl fun _ _ h => h.of_eq rfl rfl,
    .of_free rfl fun _ _ h => h.of_eq rfl rfl, .of_free rfl fun _ _ h => h.of_eq rfl rfl, List.forall_mem_nil _⟩
  · cases h with
    | intro _ members => exact .intro hps members
  · cases h with
    | intro positions _ => exact .intro positions hms

mutual

theorem yields_decode : ∀ depth, Yields (decode depth) Fits
  | 0 => .record (keeps_fields (.list fun _ _ h => by cases h)) fits_unresolved
  | depth + 1 => .record (keeps_fields (yields_decodeMembers depth)) fits_unresolved

theorem yields_decodeMembers : ∀ depth, Yields (decodeMembers depth) fun ms => ∀ m ∈ ms, m.Fits
  | 0 => .list fun _ _ h => by cases h
  | depth + 1 => .list (yields_decode depth)

end

end MappedType

/-! ### Round trips -/

/-- What is written for a document is read as that document: the value, however deep it nests, and its compact text, as
    deep as a text may nest. So is what is written for a document that was read from any text. -/
structure RoundTrips {α : Type} (decode : Nat → Decoder α) (toJson : α → Value) (fits : α → Prop) : Prop where
  written : ∀ a, fits a → ∀ depth, Reads depth (decode depth) (toJson a) a
  writtenText : ∀ a, fits a → (toJson a).height ≤ Decode.maxDepth → Decode.text decode (toJson a).compact = .ok a
  fits : ∀ text a, Decode.text decode text = .ok a → fits a
  reread : ∀ text a, Decode.text decode text = .ok a → ∀ depth, Reads depth (decode depth) (toJson a) a
  rereadText : ∀ text a, Decode.text decode text = .ok a → (toJson a).height ≤ Decode.maxDepth →
    Decode.text decode (toJson a).compact = .ok a

/-- The compact text of a value is read as the value is. -/
theorem text_compact {α : Type} {decode : Nat → Decoder α} {v : Value} {a : α} (hdepth : v.height ≤ Decode.maxDepth)
    (h : Reads Decode.maxDepth (decode Decode.maxDepth) v a) : Decode.text decode v.compact = .ok a := by
  obtain ⟨hbounded, hread⟩ := h hdepth
  rw [Decode.text, Source.ofText_compact hbounded]
  simp [hread, bind, Except.bind, pure, Except.pure]

theorem RoundTrips.of_reads {α : Type} {decode : Nat → Decoder α} {toJson : α → Value} {fits : α → Prop}
    (hreads : ∀ a, fits a → ∀ depth, Reads depth (decode depth) (toJson a) a)
    (hyields : ∀ depth, Yields (decode depth) fits) : RoundTrips decode toJson fits := by
  have hfits : ∀ text a, Decode.text decode text = .ok a → fits a := by
    intro text a h
    simp only [Decode.text, bind, Except.bind] at h
    split at h
    · cases h
    · rename_i b hb
      split at h
      · cases h
      · cases h
        exact hyields _ _ _ hb
  have htext : ∀ a, fits a → (toJson a).height ≤ Decode.maxDepth → Decode.text decode (toJson a).compact = .ok a :=
    fun a ha hdepth => text_compact hdepth (hreads a ha _)
  exact {
    written := hreads
    writtenText := htext
    fits := hfits
    reread := fun text a h => hreads a (hfits text a h)
    rereadText := fun text a h => htext a (hfits text a h) }

theorem documents_roundTrip :
    RoundTrips ModuleDocument.decode ModuleDocument.toJson ModuleDocument.Fits ∧
    RoundTrips NodeDocument.decode NodeDocument.toJson NodeDocument.Fits ∧
    RoundTrips TypeDescriptor.decode TypeDescriptor.toJson TypeDescriptor.Fits ∧
    RoundTrips MappedType.decode MappedType.toJson MappedType.Fits ∧
    RoundTrips Diagnostics.decode Diagnostics.toJson fun _ => True :=
  ⟨.of_reads (fun _ h => ModuleDocument.reads_decode h) ModuleDocument.yields_decode,
    .of_reads (fun _ h => NodeDocument.reads_decode h) NodeDocument.yields_decode,
    .of_reads (fun _ h => TypeDescriptor.reads_decode h) TypeDescriptor.yields_decode,
    .of_reads (fun _ h => MappedType.reads_decode h) MappedType.yields_decode,
    .of_reads (fun ds _ => ds.reads_decode) fun _ _ _ _ => trivial⟩

end SchemaIr
