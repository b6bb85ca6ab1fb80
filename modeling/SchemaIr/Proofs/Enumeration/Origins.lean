import Mathlib.Data.Finset.Card
import SchemaIr.Proofs.Enumeration.Coverage

/-! # What has an enumeration of its own

An enumeration comes of the base of an identity, with its module, of a typedef, with its module, or of the key of inline
enumerations (`Origin`). Every origin has an enumeration under a name of its own, as far as modules and names are told
apart by the slash between them (`ofLeaves_names_every_origin`): a module that goes on with a slash and the beginning of
the other one's name reads the same (`ownKey_eq_iff`), and then two origins share one enumeration. -/

namespace SchemaIr

namespace EnumGroups

/-! ### Keys that are read in two ways -/

/-- The other module goes on with a slash and the beginning of the name, and the other name is the rest. -/
def Shifted (module name module' name' : String) : Prop :=
  ∃ middle, module' = module ++ "/" ++ middle ∧ name = middle ++ "/" ++ name'

theorem Shifted.ne {m n m' n' : String} (h : Shifted m n m' n') : m ≠ m' := by
  obtain ⟨middle, rfl, -⟩ := h
  intro heq
  have hlength := congrArg String.length heq
  simp only [String.length_append] at hlength
  have hslash : "/".length = 1 := rfl
  omega

/-- Where one module begins with the other, so that the keys agree behind it. -/
theorem shifted_of_append {m n m' n' : String} {more : List Char} (hm' : m'.toList = m.toList ++ more)
    (hn : '/' :: n.toList = more ++ '/' :: n'.toList) : (m = m' ∧ n = n') ∨ Shifted m n m' n' := by
  cases more with
  | nil =>
    rw [List.append_nil] at hm'
    rw [List.nil_append, List.cons.injEq] at hn
    exact .inl ⟨String.toList_injective hm'.symm, String.toList_injective hn.2⟩
  | cons c middle =>
    rw [List.cons_append, List.cons.injEq] at hn
    obtain ⟨rfl, hn⟩ := hn
    refine .inr ⟨String.ofList middle, String.toList_injective ?_, String.toList_injective ?_⟩
    · simpa [String.toList_append] using hm'
    · simpa [String.toList_append] using hn

theorem ownKey_eq_iff {m n m' n' : String} :
    ownKey m n = ownKey m' n' ↔ (m = m' ∧ n = n') ∨ Shifted m n m' n' ∨ Shifted m' n' m n := by
  constructor
  · intro h
    have hchars : m.toList ++ '/' :: n.toList = m'.toList ++ '/' :: n'.toList := by
      simpa [ownKey, String.toList_append] using congrArg String.toList h
    rcases List.append_eq_append_iff.mp hchars with ⟨more, hm', hn⟩ | ⟨more, hm, hn'⟩
    · rcases shifted_of_append hm' hn with heq | hshift
      · exact .inl heq
      · exact .inr (.inl hshift)
    · rcases shifted_of_append hm hn' with ⟨rfl, rfl⟩ | hshift
      · exact .inl ⟨rfl, rfl⟩
      · exact .inr (.inr hshift)
  · rintro (⟨rfl, rfl⟩ | ⟨middle, rfl, rfl⟩ | ⟨middle, rfl, rfl⟩)
    · rfl
    · simp [ownKey, String.append_assoc]
    · simp [ownKey, String.append_assoc]

/-! ### Origins -/

/-- What enumerations come of. -/
inductive Origin
  | identity (module base : String)
  | definition (module name : String)
  /-- All inline enumerations of one key. -/
  | inline (key : String)
  deriving DecidableEq, Repr

namespace Origin

def kind : Origin → EnumKind
  | identity _ _ => .identity
  | definition _ _ => .typedef
  | inline _ => .simple

/-- The key of its group. -/
def key : Origin → String
  | identity module name | definition module name => ownKey module name
  | inline key => key

/-- Two bases of identities, or two typedefs, that differ in where the module ends. -/
inductive Blurs : Origin → Origin → Prop
  | identity {m n m' n' : String} : Shifted m n m' n' ∨ Shifted m' n' m n → Blurs (.identity m n) (.identity m' n')
  | definition {m n m' n' : String} : Shifted m n m' n' ∨ Shifted m' n' m n → Blurs (.definition m n) (.definition m' n')

variable {o o' : Origin}

theorem Blurs.ne (h : o.Blurs o') : o ≠ o' := by
  rintro rfl
  cases h with
  | identity hshift | definition hshift => rcases hshift with hshift | hshift <;> exact hshift.ne rfl

/-- Only these have one key. -/
theorem key_eq_iff : (o.kind = o'.kind ∧ o.key = o'.key) ↔ o = o' ∨ o.Blurs o' := by
  constructor
  · rintro ⟨hkind, hkey⟩
    cases o <;> cases o' <;> cases hkind
    · rcases ownKey_eq_iff.mp hkey with ⟨rfl, rfl⟩ | hshift
      · exact .inl rfl
      · exact .inr (.identity hshift)
    · rcases ownKey_eq_iff.mp hkey with ⟨rfl, rfl⟩ | hshift
      · exact .inl rfl
      · exact .inr (.definition hshift)
    · exact .inl (congrArg inline hkey)
  · rintro (rfl | ⟨hshift⟩ | ⟨hshift⟩)
    · exact ⟨rfl, rfl⟩
    · exact ⟨rfl, ownKey_eq_iff.mpr (.inr hshift)⟩
    · exact ⟨rfl, ownKey_eq_iff.mpr (.inr hshift)⟩

/-- No slash stands in the module. -/
def Slashless : Origin → Prop
  | identity module _ | definition module _ => '/' ∉ module.toList
  | inline _ => True

theorem not_blurs_of_slashless (h : o.Slashless) (h' : o'.Slashless) : ¬o.Blurs o' := by
  have hslash : ∀ {m n m' n'}, Shifted m n m' n' → '/' ∈ m'.toList := by
    rintro m n m' n' ⟨middle, rfl, -⟩
    simp [String.toList_append]
  intro hblurs
  cases hblurs with
  | identity hshift | definition hshift =>
    rcases hshift with hshift | hshift
    · exact h' (hslash hshift)
    · exact h (hslash hshift)

end Origin

/-- The origin of an enumerated alternative of a leaf's type. -/
def origin? (t : SchemaTree) (compress skipDedup : Bool) (leaf : NodeId) (m : TypeDescriptor) : Option Origin :=
  match m.kind, m.typedef with
  | .identityref, _ => m.identity.map fun i => .identity i.module i.base
  | .enumeration, some d => some (.definition d.module d.name)
  | .enumeration, none => some (.inline (inlineKey t skipDedup leaf (context t compress leaf) (m.values.map (·.name))))
  | _, _ => none

/-- The origins of all enumerated alternatives of some leaves. -/
def origins (t : SchemaTree) (enumLeaves : Table NodeId) (compress skipDedup : Bool) : List Origin :=
  enumLeaves.values.flatMap fun leaf =>
    (((t.node leaf).type.map (·.enumeratedMembers)).getD []).filterMap (origin? t compress skipDedup leaf)

variable {t : SchemaTree} {enumLeaves : Table NodeId} {compress skipDedup : Bool} {path : String} {leaf : NodeId}
  {m : TypeDescriptor} {o : Origin}

theorem isEnumerated_of_origin? (h : origin? t compress skipDedup leaf m = some o) : m.isEnumerated = true := by
  unfold origin? at h
  unfold TypeDescriptor.isEnumerated
  split at h
  · rename_i hkind
    simp [hkind]
  · rename_i hkind _
    simp [hkind]
  · rename_i hkind _
    simp [hkind]
  · cases h

theorem mem_origins_iff : o ∈ origins t enumLeaves compress skipDedup ↔
    ∃ path leaf type m, enumLeaves.get? path = some leaf ∧ (t.node leaf).type = some type ∧ type.IsAlternative m ∧
      origin? t compress skipDedup leaf m = some o := by
  simp only [origins, List.mem_flatMap, List.mem_filterMap, Table.mem_values_iff]
  constructor
  · rintro ⟨leaf, ⟨path, hleaf⟩, m, hm, ho⟩
    cases htype : (t.node leaf).type with
    | none => simp [htype] at hm
    | some type =>
      rw [htype, Option.map_some, Option.getD_some] at hm
      exact ⟨path, leaf, type, m, hleaf, htype, (TypeDescriptor.mem_enumeratedMembers_iff.mp hm).1, ho⟩
  · rintro ⟨path, leaf, type, m, hleaf, htype, hm, ho⟩
    refine ⟨leaf, ⟨path, hleaf⟩, m, ?_, ho⟩
    rw [htype, Option.map_some, Option.getD_some]
    exact TypeDescriptor.mem_enumeratedMembers_iff.mpr ⟨hm, isEnumerated_of_origin? ho⟩

/-- What is sighted goes to the group of its origin. -/
theorem origin?_of_sight {s : Sighting} (henum : m.isEnumerated = true)
    (h : sight t compress skipDedup path leaf m = .ok s) :
    ∃ o, origin? t compress skipDedup leaf m = some o ∧ o.kind = s.group.kind ∧ o.key = s.key := by
  unfold origin?
  rcases (sight_eq_ok h).2.2 with ⟨hk, hkind, -, i, hi, -, hkey⟩ | ⟨hk, hkind, -, d, hd, hkey⟩ | ⟨hk, hkind, hnone⟩
  · simp only [hk, hi, Option.map_some]
    exact ⟨_, rfl, hkind.symm, hkey.symm⟩
  · simp only [EnumSet.kind_of_isEnumerated henum hk, hd]
    exact ⟨_, rfl, hkind.symm, hkey.symm⟩
  · have hm := EnumSet.kind_of_isEnumerated henum hk
    simp only [hm, hnone]
    exact ⟨_, rfl, hkind.symm, (inline_of_sight h hm hnone).2.2.symm⟩

end EnumGroups

namespace EnumSet
open EnumGroups (Origin origin? origins)

variable {t : SchemaTree} {enumLeaves : Table NodeId} {compress skipDedup : Bool} {before after : NameRegistry}
  {set : EnumSet}

/-! ### The groups of origins -/

/-- Where the naming succeeds, the groups are those of the origins. -/
theorem exists_group_iff_origin (h : (EnumSet.ofLeaves t enumLeaves compress skipDedup before).1 = .ok set)
    {kind : EnumKind} {key : String} :
    (∃ g, ((EnumGroups.ofLeaves t enumLeaves compress skipDedup).1.ofKind kind).get? key = some g) ↔
      ∃ o ∈ origins t enumLeaves compress skipDedup, o.kind = kind ∧ o.key = key := by
  constructor
  · intro hgroup
    obtain ⟨s, hs, rfl, rfl⟩ := (EnumGroups.ofKind_ofLeaves kind).mp hgroup
    obtain ⟨leaf, hleaf, hmem⟩ := EnumGroups.leaf_of_sighted hs
    obtain ⟨type, htype, -, m, hm, hsight⟩ := EnumGroups.mem_sightings hmem
    obtain ⟨halternative, henum⟩ := TypeDescriptor.mem_enumeratedMembers_iff.mp hm
    obtain ⟨o, ho, hkind, hkey⟩ := EnumGroups.origin?_of_sight henum hsight
    exact ⟨o, EnumGroups.mem_origins_iff.mpr ⟨_, leaf, type, m, hleaf, htype, halternative, ho⟩, hkind, hkey⟩
  · rintro ⟨o, ho, rfl, rfl⟩
    obtain ⟨path, leaf, type, m, hleaf, htype, hm, ho⟩ := EnumGroups.mem_origins_iff.mp ho
    have henum := EnumGroups.isEnumerated_of_origin? ho
    obtain ⟨s, g, hsight, -, hg⟩ :=
      exists_group_at h hleaf htype (TypeDescriptor.mem_enumeratedMembers_iff.mpr ⟨hm, henum⟩)
    obtain ⟨o', ho', hkind, hkey⟩ := EnumGroups.origin?_of_sight henum hsight
    obtain rfl := Option.some.inj (ho.symm.trans ho')
    exact ⟨g, hkind ▸ hkey ▸ hg⟩

/-- There are as many groups as origins exactly if no two origins have one key. -/
theorem length_members_eq_iff (h : (EnumSet.ofLeaves t enumLeaves compress skipDedup before).1 = .ok set) :
    (EnumGroups.ofLeaves t enumLeaves compress skipDedup).1.members.length =
        (origins t enumLeaves compress skipDedup).dedup.length ↔
      ∀ o ∈ origins t enumLeaves compress skipDedup, ∀ o' ∈ origins t enumLeaves compress skipDedup, ¬o.Blurs o' := by
  let groups := (EnumGroups.ofLeaves t enumLeaves compress skipDedup).1
  let place (o : Origin) : EnumKind × String := (o.kind, o.key)
  have hplaces : (groups.members.map fun m => (m.1, m.2.1)).toFinset =
      (origins t enumLeaves compress skipDedup).toFinset.image place := by
    ext ⟨kind, key⟩
    simp only [List.mem_toFinset, List.mem_map, Prod.exists, Prod.mk.injEq, Finset.mem_image, place]
    rw [← exists_group_iff_origin h]
    constructor
    · rintro ⟨_, _, g, hg, rfl, rfl⟩
      exact ⟨g, EnumGroups.mem_members.mp hg⟩
    · rintro ⟨g, hg⟩
      exact ⟨kind, key, g, EnumGroups.mem_members.mpr hg, rfl, rfl⟩
  have hlength : groups.members.length = ((origins t enumLeaves compress skipDedup).toFinset.image place).card := by
    rw [← hplaces, List.toFinset_card_of_nodup groups.members_nodup, List.length_map]
  rw [hlength, ← List.card_toFinset, Finset.card_image_iff]
  constructor
  · intro hinj o ho o' ho' hblurs
    have hplace : place o = place o' := Prod.ext_iff.mpr (EnumGroups.Origin.key_eq_iff.mpr (.inr hblurs))
    exact hblurs.ne (hinj (List.mem_toFinset.mpr ho) (List.mem_toFinset.mpr ho') hplace)
  · intro hnone o ho o' ho' hplace
    refine (EnumGroups.Origin.key_eq_iff.mp (Prod.ext_iff.mp hplace)).resolve_right ?_
    exact hnone o (List.mem_toFinset.mp ho) o' (List.mem_toFinset.mp ho')

/-! ### Names of origins -/

/-- Every origin of the leaves has a name in a set. -/
structure NamesOrigins (t : SchemaTree) (enumLeaves : Table NodeId) (compress skipDedup : Bool)
    (before after : NameRegistry) (set : EnumSet) (nameOf : Origin → String) : Prop where
  /-- Every origin has an enumeration, … -/
  entity : ∀ o ∈ origins t enumLeaves compress skipDedup,
    ∃ e, set.enumerations.get? (nameOf o) = some e ∧ e.name = nameOf o ∧ e.kind = o.kind
  /-- … and every enumeration comes of an origin. -/
  only : ∀ name e, set.enumerations.get? name = some e → ∃ o ∈ origins t enumLeaves compress skipDedup, nameOf o = name
  /-- Two origins share a name exactly if they differ in nothing but where the module ends. -/
  shared : ∀ o ∈ origins t enumLeaves compress skipDedup, ∀ o' ∈ origins t enumLeaves compress skipDedup,
    nameOf o = nameOf o' ↔ o = o' ∨ o.Blurs o'
  fresh : ∀ o ∈ origins t enumLeaves compress skipDedup, before.contains (nameOf o) = false
  taken : ∀ o ∈ origins t enumLeaves compress skipDedup, after.contains (nameOf o) = true
  /-- So there are as many enumerations as origins exactly if no two of these do. -/
  size : set.enumerations.size = (origins t enumLeaves compress skipDedup).dedup.length ↔
    ∀ o ∈ origins t enumLeaves compress skipDedup, ∀ o' ∈ origins t enumLeaves compress skipDedup, ¬o.Blurs o'
  /-- A leaf of the table refers to what comes of its enumerations by these names. -/
  refers : (∀ path leaf, enumLeaves.get? path = some leaf → t.pathString leaf = path) →
    ∀ path leaf type m o, enumLeaves.get? path = some leaf → (t.node leaf).type = some type → type.IsAlternative m →
      origin? t compress skipDedup leaf m = some o → set.nameFor? t leaf m = some (nameOf o)

/-- Names by kind and key are names of the origins. -/
theorem Naming.names_origins {nameOf : EnumKind → String → String}
    (hnaming : Naming (EnumGroups.ofLeaves t enumLeaves compress skipDedup).1 before after set nameOf)
    (h : (EnumSet.ofLeaves t enumLeaves compress skipDedup before).1 = .ok set) :
    NamesOrigins t enumLeaves compress skipDedup before after set fun o => nameOf o.kind o.key := by
  have hgroup : ∀ o ∈ origins t enumLeaves compress skipDedup,
      ∃ g, ((EnumGroups.ofLeaves t enumLeaves compress skipDedup).1.ofKind o.kind).get? o.key = some g :=
    fun o ho => (exists_group_iff_origin h).mpr ⟨o, ho, rfl, rfl⟩
  refine ⟨fun o ho => ?_, fun name e he => ?_, fun o ho o' ho' => ?_, fun o ho => ?_, fun o ho => ?_, ?_,
    fun hkeyed path leaf type m o hleaf htype hm ho => ?_⟩
  · obtain ⟨g, hg⟩ := hgroup o ho
    exact ⟨_, hnaming.entity hg, rfl, EnumGroups.kind_of_group hg⟩
  · obtain ⟨kind, key, g, hg, rfl, -⟩ := hnaming.only he
    obtain ⟨o, ho, rfl, rfl⟩ := (exists_group_iff_origin h).mp ⟨g, hg⟩
    exact ⟨o, ho, rfl⟩
  · rw [← EnumGroups.Origin.key_eq_iff]
    obtain ⟨g, hg⟩ := hgroup o ho
    obtain ⟨g', hg'⟩ := hgroup o' ho'
    exact ⟨hnaming.injective hg hg', fun ⟨hkind, hkey⟩ => by rw [hkind, hkey]⟩
  · obtain ⟨g, hg⟩ := hgroup o ho
    exact hnaming.fresh hg
  · obtain ⟨g, hg⟩ := hgroup o ho
    exact hnaming.taken hg
  · rw [hnaming.size, ← EnumGroups.length_members, length_members_eq_iff h]
  · have henum := EnumGroups.isEnumerated_of_origin? ho
    obtain ⟨s, g, -, hsight, -, hg, hlisted, -⟩ := exists_named hkeyed h hleaf htype hm henum
    obtain ⟨o', ho', hkind, hkey⟩ := EnumGroups.origin?_of_sight henum hsight
    obtain rfl := Option.some.inj (ho.symm.trans ho')
    rw [hkind, hkey]
    exact hnaming.nameFor?_of_sight (hkeyed path leaf hleaf) henum hsight hg hlisted

/-- The naming of enumerations is total, and it is injective as far as modules and names are told apart. Every group has
    one enumeration, under a name that no other group has and that was free before, and nothing else is in the set; and the
    groups are those of the origins, of which two fall into one exactly if they differ in nothing but where the module ends.
    If no slash stands in a module, there are as many enumerations as origins. -/
theorem ofLeaves_names_every_origin
    (h : EnumSet.ofLeaves t enumLeaves compress skipDedup before = (.ok set, after)) :
    ∃ nameOf, Naming (EnumGroups.ofLeaves t enumLeaves compress skipDedup).1 before after set nameOf ∧
      NamesOrigins t enumLeaves compress skipDedup before after set (fun o => nameOf o.kind o.key) ∧
      ((∀ o ∈ origins t enumLeaves compress skipDedup, o.Slashless) →
        set.enumerations.size = (origins t enumLeaves compress skipDedup).dedup.length) := by
  obtain ⟨nameOf, hnaming⟩ := exists_naming h
  have horigins := hnaming.names_origins (congrArg Prod.fst h)
  refine ⟨nameOf, hnaming, horigins, fun hslashless => horigins.size.mpr fun o ho o' ho' => ?_⟩
  exact EnumGroups.Origin.not_blurs_of_slashless (hslashless o ho) (hslashless o' ho')

/-- A leaf whose identity, typedef and inline enumeration all want the same name. -/
def crowded : SchemaTree :=
  (SchemaTree.empty.addModule ⟨"m", "urn:m", none, false⟩).addChild 0
    { Node.ofKind "color" .leaf "m" with
      type := some { TypeDescriptor.ofKind .union with
        members :=
          [{ TypeDescriptor.ofKind .enumeration with values := [⟨"red", none⟩] },
            { TypeDescriptor.ofKind .enumeration with
              typedef := some ⟨"m", "color"⟩, values := [⟨"green", none⟩] },
            { TypeDescriptor.ofKind .identityref with identity := some ⟨"m", "color", ["blue"]⟩ }] } }

theorem crowded_names_every_origin : ∃ set after nameOf,
    EnumSet.ofLeaves crowded (.ofList [("/m/color", 1)]) false false ∅ = (.ok set, after) ∧
      set.enumerations.names = ["M_Color", "M_Color_", "M_Color__"] ∧
      NamesOrigins crowded (.ofList [("/m/color", 1)]) false false ∅ after set nameOf ∧
      set.enumerations.size = (origins crowded (.ofList [("/m/color", 1)]) false false).dedup.length := by
  have hnames : (EnumSet.ofLeaves crowded (.ofList [("/m/color", 1)]) false false ∅).1.toOption.map
      (·.enumerations.names) = some ["M_Color", "M_Color_", "M_Color__"] := by
    decide +kernel
  have horigins : origins crowded (.ofList [("/m/color", 1)]) false false =
      [.inline "m||color|red", .definition "m" "color", .identity "m" "color"] := by
    decide +kernel
  match h : EnumSet.ofLeaves crowded (.ofList [("/m/color", 1)]) false false ∅ with
  | (.ok set, after) =>
    rw [h] at hnames
    obtain ⟨nameOf, -, hnamed, hsize⟩ := ofLeaves_names_every_origin h
    refine ⟨set, after, _, rfl, Option.some.inj hnames, hnamed, hsize ?_⟩
    simp [horigins, EnumGroups.Origin.Slashless]
  | (.error _, _) =>
    rw [h] at hnames
    cases hnames

/-- Two leaves with identities that differ in where the module ends. -/
def slashed : SchemaTree :=
  let identity (module base value : String) : TypeDescriptor :=
    { TypeDescriptor.ofKind .identityref with identity := some ⟨module, base, [value]⟩ }
  ((SchemaTree.empty.addModule ⟨"m", "urn:m", none, false⟩).addChild 0
    { Node.ofKind "x" .leaf "m" with type := some (identity "a/b" "c" "red") }).addChild 0
    { Node.ofKind "y" .leaf "m" with type := some (identity "a" "b/c" "blue") }

def slashedLeaves : Table NodeId := .ofList [("/m/x", 1), ("/m/y", 2)]

/-- The two identities share one enumeration, which has the values of the first. -/
theorem slashed_share_enumeration : ∃ set,
    (∀ e ∈ slashedLeaves.entries, slashed.pathString e.2 = e.1) ∧
    (EnumSet.ofLeaves slashed slashedLeaves false false ∅).1 = .ok set ∧
    origins slashed slashedLeaves false false = [.identity "a/b" "c", .identity "a" "b/c"] ∧
    set.enumerations.entries.map (fun e => (e.2.values, e.2.leafPaths)) = [(["red"], ["/m/x", "/m/y"])] := by
  have hrun : ((EnumSet.ofLeaves slashed slashedLeaves false false ∅).1.toOption.any fun set =>
      set.enumerations.entries.map (fun e => (e.2.values, e.2.leafPaths)) == [(["red"], ["/m/x", "/m/y"])]) = true := by
    decide +kernel
  obtain ⟨set, hset, hentries⟩ := (Option.any_eq_true ..).mp hrun
  exact ⟨set, by decide +kernel, ok_of_toOption hset, by decide +kernel, beq_iff_eq.mp hentries⟩

end EnumSet

end SchemaIr
