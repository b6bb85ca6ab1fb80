import SchemaIr.Proofs.Leafref.Chain
import SchemaIr.Proofs.Leafref.Navigation
import SchemaIr.Proofs.Leafref.Writing
import SchemaIr.Proofs.ListKey.Keys
import SchemaIr.Proofs.MappedType.Maps

/-! # The types of redirected keys

With and without compression a list has the same keys, but a leafref key may be held by different leaves: compression looks
for two names below the list, whatever stands before them in the path. Where leafrefs lead from the key to the leaf that
holds it (`Maps.of_leads`), the key has the same type in both cases. They do so if the path is written as one step up and
two names (`refers_of_beside`), but not for every path that ends in the two names (`peer_types`). -/

namespace SchemaIr

open LeafIndex (Refers Chain ChainOf)
open Leafref (Writing IsName)
open Relation (ReflTransGen)

namespace LeafIndex
variable {index : LeafIndex} {t : SchemaTree} {id next target : NodeId} {nodes : List NodeId}

/-- Where leafrefs lead on the way, the chain goes on to its end. -/
theorem Chain.of_leads (hchain : Chain index t (id :: nodes) target) (h : ReflTransGen (Refers index t) id next) :
    ∃ rest, Chain index t (next :: rest) target ∧ rest.length ≤ nodes.length := by
  induction h using ReflTransGen.head_induction_on generalizing nodes with
  | refl => exact ⟨nodes, hchain, Nat.le_refl _⟩
  | head hnext _ ih =>
    rcases chain_cons_iff.mp hchain with ⟨hplain, -⟩ | ⟨_, rest, rfl, hnext', hrest⟩
    · rw [hnext.isLeafref] at hplain
      cases hplain
    · obtain rfl := hnext.unique hnext'
      obtain ⟨rest', hchain', hlength⟩ := ih hrest
      exact ⟨rest', hchain', Nat.le_succ_of_le hlength⟩

end LeafIndex

namespace TypeContext
variable {ctx : TypeContext} {owner : String} {leaf held target : NodeId} {type targetType : TypeDescriptor}
  {m m' : MappedType}

theorem Maps.exists_target (h : Maps ctx owner leaf type m) (href : type.isLeafref = true) :
    ∃ target targetType, ctx.index.chainTarget? ctx.tree leaf (type.path.getD "") = some target ∧
      (ctx.tree.node target).type = some targetType ∧ Maps ctx owner target targetType m := by
  cases h with
  | kind hm =>
    rw [ofKind?_of_isLeafref href] at hm
    cases hm
  | enumeration henum =>
    rw [TypeDescriptor.isLeafref_of_isEnumerated henum] at href
    cases href
  | leafref _ htarget htype hmaps => exact ⟨_, _, htarget, htype, hmaps⟩
  | union _ hunion =>
    rw [isLeafref_of_isUnion hunion] at href
    cases href

/-- A leaf maps to what the end of its chain maps to, whether it is a leafref or the end itself. -/
theorem Maps.of_chain {rest : List NodeId} (h : Maps ctx owner leaf type m) (htype : (ctx.tree.node leaf).type = some type)
    (hchain : Chain ctx.index ctx.tree (leaf :: rest) target) (hlength : rest.length ≤ LeafIndex.maxChain)
    (htarget : (ctx.tree.node target).type = some targetType) : Maps ctx owner target targetType m := by
  rcases LeafIndex.chain_cons_iff.mp hchain with ⟨-, rfl, -⟩ | ⟨next, rest, rfl, hnext, hrest⟩
  · obtain rfl := Option.some.inj (htype.symm.trans htarget)
    exact h
  · obtain ⟨type', path, htype', href, hpath, hfirst⟩ := hnext
    obtain rfl := Option.some.inj (htype.symm.trans htype')
    refine h.of_leafref href ?_ htarget
    rw [hpath]
    exact LeafIndex.chainTarget?_eq_some_iff.mpr ⟨_, ⟨hrest, hfirst⟩, hlength⟩

/-- Two leaves have the same type if leafrefs lead from one to the other. -/
theorem bare_eq_of_leads (h : ctx.leafType leaf owner = some (.ok m)) (h' : ctx.leafType held owner = some (.ok m'))
    (hleads : ReflTransGen (Refers ctx.index ctx.tree) leaf held) : m.bare = m'.bare := by
  obtain ⟨type, htype, hmaps⟩ := leafType_eq_ok h
  obtain ⟨type', htype', hmaps'⟩ := leafType_eq_ok h'
  rcases ReflTransGen.cases_head hleads with rfl | ⟨next, hnext, hleads'⟩
  · obtain rfl := Option.some.inj (htype.symm.trans htype')
    exact hmaps.unique hmaps'
  · obtain ⟨_, path, htype'', href, hpath, hfirst⟩ := hnext
    obtain rfl := Option.some.inj (htype.symm.trans htype'')
    obtain ⟨target, targetType, htarget, htargetType, hmaps⟩ := hmaps.exists_target href
    rw [hpath, Option.getD_some] at htarget
    obtain ⟨nodes, ⟨hchain, hfirst'⟩, hlength⟩ := LeafIndex.chainTarget?_eq_some_iff.mp htarget
    obtain ⟨rest, rfl⟩ := List.head?_eq_some_iff.mp (hfirst'.symm.trans hfirst)
    -- The chain from the one leaf passes the other, so both have the type of its end.
    obtain ⟨rest', hchain', hlength'⟩ := hchain.of_leads hleads'
    refine hmaps.unique (hmaps'.of_chain htype' hchain' ?_ htargetType)
    exact Nat.le_trans hlength' (Nat.le_trans (Nat.le_succ _) hlength)

end TypeContext

namespace ListKey
variable {t : SchemaTree} {list leaf held : NodeId} {key : String}

/-! ### Leafrefs to the names below a list -/

/-- The type of a leaf is a leafref that is written as one step up and two names, perhaps with qualifiers and
    predicates. -/
def WrittenBeside (t : SchemaTree) (leaf : NodeId) (up dir last : Writing) : Prop :=
  up.step = ".." ∧ IsName dir.step ∧ IsName last.step ∧ ∃ type, (t.node leaf).type = some type ∧
    type.isLeafref = true ∧ type.path = some ("/".intercalate ([up, dir, last].map Writing.text))

variable {up dir last : Writing}

theorem steps_texts (ws : List Writing) :
    Text.steps (Leafref.withoutPredicates ("/".intercalate (ws.map Writing.text))) = ws.map Writing.qualified := by
  have hwithout := Writing.withoutPredicates_path (show '[' ∉ "".toList by decide) ws
  rw [String.empty_append, String.empty_append] at hwithout
  rw [hwithout, Leafref.withoutPredicates_of_notMem (Leafref.bracket_notMem_intercalate
    (List.forall_mem_map.mpr fun w _ => w.isStep_qualified.bracket))]
  exact Text.steps_intercalate (List.forall_mem_map.mpr fun w _ =>
    ⟨w.isStep_qualified.nonempty, w.isStep_qualified.slash⟩)

theorem LeadsBelow.of_writtenBeside (h : LeadsBelow t list leaf held) (hwritten : WrittenBeside t leaf up dir last) :
    ∃ container, t.child? list dir.step = some container ∧ t.child? container last.step = some held := by
  obtain ⟨-, -, -, type, htype, -, hpath⟩ := hwritten
  obtain ⟨_, _, steps, dir', last', container, htype', hpath', hsteps, hdir, hlast⟩ := h
  obtain rfl := Option.some.inj (htype.symm.trans htype')
  obtain rfl := Option.some.inj (hpath.symm.trans hpath')
  rw [steps_texts] at hsteps
  have hpair : [up.qualified] ++ [dir.qualified, last.qualified] = steps ++ [dir', last'] := hsteps
  have hnames := (List.append_inj' hpair rfl).2
  simp only [List.cons.injEq] at hnames
  obtain ⟨rfl, rfl, -⟩ := hnames
  rw [Writing.unqualified_qualified] at hdir hlast
  exact ⟨container, hdir, hlast⟩

/-- The leafref leads to the leaf of the two names, since this is where one step up and the names lead. -/
theorem refers_of_beside (h : t.Grown) (hshadow : t.Unshadowed) (hpaths : t.DistinctPaths) (hlist : t.kind list = .list)
    (hchild : t.child? list key = some leaf) (hleads : LeadsBelow t list leaf held)
    (hwritten : WrittenBeside t leaf up dir last) (hleaf : (t.kind leaf).isLeafLike = true)
    (hheld : (t.kind held).isLeafLike = true)
    (hparent : ∀ p, t.parent? held = some p → (t.kind p).isChoiceOrCase = false) :
    Refers (.ofTree t) t leaf held := by
  have ht := h.regular hshadow hpaths
  obtain ⟨container, hdir, hlast⟩ := hleads.of_writtenBeside hwritten
  obtain ⟨hup, hdirName, hlastName, type, htype, href, hpath⟩ := hwritten
  obtain ⟨hcontainer, hdirEq⟩ := ht.up hdir
  obtain ⟨hheldParent, hlastEq⟩ := ht.up hlast
  refine ⟨type, _, htype, href, hpath, ?_⟩
  have hancestor : t.dataAncestor? 1 leaf = some list := by
    have hdata : t.dataParent? leaf = some list := by
      rw [SchemaTree.dataParent?, SchemaTree.ancestors_of_parent (ht.up hchild).1, SchemaTree.lineage_eq,
        SchemaTree.dataNodes_cons, hlist]
      rfl
    rw [SchemaTree.dataAncestor?, hdata]
    rfl
  have hheldPath : t.dataPath held = t.dataPath list ++ [dir.step, last.step] := by
    rw [SchemaTree.dataPath_of_parent hheldParent, SchemaTree.dataPath_of_parent hcontainer,
      hparent container hheldParent, NodeKind.isChoiceOrCase_of_isLeafLike hheld, hdirEq, hlastEq]
    simp
  have htarget : (LeafIndex.ofTree t).targetPath? t leaf ("/".intercalate ([up, dir, last].map Writing.text)) =
      some (t.pathString held) := by
    have hnames : ∀ n ∈ [dir.step, last.step], IsName n := by
      simpa using ⟨hdirName, hlastName⟩
    rw [LeafIndex.targetPath?_texts, List.map_cons, hup]
    refine (LeafIndex.targetPath?_up_names ht (.of_isLeafLike hleaf) 1 (List.cons_ne_nil _ _) hnames).trans ?_
    rw [hancestor, Option.map_some, ← hheldPath]
    rfl
  rw [LeafIndex.target?, htarget, Option.bind_some]
  refine (LeafIndex.leaf?_eq_some_iff h fun a b ha hb => ?_).mpr ⟨(LeafIndex.indexed_iff ht).mpr hheld, rfl⟩
  have hadata := SchemaTree.IsDataNode.of_isLeafLike ha.isLeafLike
  have hbdata := SchemaTree.IsDataNode.of_isLeafLike hb.isLeafLike
  exact hpaths a b hadata.lt_size hbdata.lt_size hadata.isChoiceOrCase hbdata.isChoiceOrCase

/-! ### The types of keys -/

/-- With and without compression the keys of a list are the same, and a key has the same type but for a default, if it is
    no leafref, or if leafrefs lead from it to the leaf that holds it under compression. So they do from a leaf whose path
    is written as one step up and two names, if the second of them is that of a leaf in no choice. -/
theorem types_of_compressed (h : t.Grown) (hshadow : t.Unshadowed) (hpaths : t.DistinctPaths) {enums : EnumSet}
    {owner : String} {a b : ListKeys} (ha : (TypeContext.mk t (.ofTree t) enums).listKeys false list owner = some (.ok (some a)))
    (hb : (TypeContext.mk t (.ofTree t) enums).listKeys true list owner = some (.ok (some b))) :
    a.keys = b.keys ∧ ∀ key ∈ a.keys, ∃ leaf held type type', a.nodes.get? key = some leaf ∧
      b.nodes.get? key = some held ∧ a.types.get? key = some type ∧ b.types.get? key = some type' ∧
      ((t.node leaf).isLeafref = false ∨ ReflTransGen (Refers (.ofTree t) t) leaf held ∨
          (∃ up dir last, WrittenBeside t leaf up dir last) ∧ (t.kind leaf).isLeafLike = true ∧
            (t.kind held).isLeafLike = true ∧ (∀ p, t.parent? held = some p → (t.kind p).isChoiceOrCase = false) →
        type.bare = type'.bare) := by
  obtain ⟨hlist, -, -, hacomplete⟩ := listKeys_eq_keys_iff.mp ha
  obtain ⟨-, -, hsound, hbcomplete⟩ := listKeys_eq_keys_iff.mp hb
  have hkeys : a.keys = b.keys := hacomplete.declared.trans hbcomplete.declared.symm
  refine ⟨hkeys, fun key hkey => ?_⟩
  obtain ⟨leaf, type, haholder, hanode, hatype, haleaf, -⟩ := hacomplete.entry key hkey
  obtain ⟨held, type', hbholder, hbnode, hbtype, hbleaf, -⟩ := hbcomplete.entry key (hkeys ▸ hkey)
  refine ⟨leaf, held, type, type', hanode, hbnode, hatype, hbtype, fun hcondition => ?_⟩
  have hchild : t.child? list key = some leaf := by
    cases haholder with
    | self hchild _ => exact hchild
    | redirected _ hcompress _ => cases hcompress
    | lost _ hcompress _ => cases hcompress
  refine TypeContext.bare_eq_of_leads haleaf hbleaf ?_
  cases hbholder with
  | self hchild' _ =>
    obtain rfl := Option.some.inj (hchild.symm.trans hchild')
    exact .refl
  | lost hchild' hleafref hlost =>
    exact absurd ⟨held, hchild', hleafref, hlost⟩ (hsound key (hacomplete.declared ▸ hkey)).1
  | redirected hchild' hleafref hbelow =>
    obtain rfl := Option.some.inj (hchild.symm.trans hchild')
    rcases hcondition with hplain | hleads | ⟨⟨up, dir, last, hwritten⟩, hleaf, hheld, hparent⟩
    · rw [hplain] at hleafref
      cases hleafref
    · exact hleads
    · exact .single (refers_of_beside h hshadow hpaths hlist hchild hbelow hwritten hleaf hheld hparent)

/-- A list with two keys, both leafrefs: `name` to the leaf of its own configuration, and `peer` to the leaf of these names
    in the hub, which has another type. -/
def entries : SchemaTree :=
  let leafref (path : String) : TypeDescriptor := { TypeDescriptor.ofKind .leafref with path := some path }
  ((((((((SchemaTree.empty.addModule ⟨"net", "urn:net", none, false⟩).addChild 0
    { Node.ofKind "entry" .list "net" with key := some "name peer" }).addChild 1
    { Node.ofKind "name" .leaf "net" with type := some (leafref "../config/name") }).addChild 1
    { Node.ofKind "peer" .leaf "net" with type := some (leafref "../../hub/config/name") }).addChild 1
    (.ofKind "config" .container "net")).addChild 4
    { Node.ofKind "name" .leaf "net" with type := some (.ofKind .uint32) }).addChild 0
    (.ofKind "hub" .container "net")).addChild 6
    (.ofKind "config" .container "net")).addChild 7
    { Node.ofKind "name" .leaf "net" with type := some (.ofKind .string) }

theorem entries_shown : entries.Grown ∧ entries.Unshadowed ∧ entries.DistinctPaths := by
  refine ⟨?_, .of_ids (by decide +kernel), .of_ids (by decide +kernel)⟩
  exact .addChild _ _ (.addChild _ _ (.addChild _ _ (.addChild _ _ (.addChild _ _ (.addChild _ _ (.addChild _ _
    (.addChild _ _ (.addModule _ .empty))))))))

theorem exists_listKeys (ctx : TypeContext) (compress : Bool) (list : NodeId) (owner : String) (p : ListKeys → Bool)
    (h : ((result? (ctx.listKeys compress list owner)).any fun keys => keys.any p) = true) :
    ∃ keys, ctx.listKeys compress list owner = some (.ok (some keys)) ∧ p keys = true := by
  obtain ⟨found, hfound, hany⟩ := (Option.any_eq_true _ _).mp h
  obtain ⟨keys, rfl, hp⟩ := (Option.any_eq_true _ _).mp hany
  exact ⟨keys, some_ok_of_result? hfound, hp⟩

theorem name_types : ∃ a b type type',
    (TypeContext.mk entries (.ofTree entries) .empty).listKeys false 1 "Entry" = some (.ok (some a)) ∧
    (TypeContext.mk entries (.ofTree entries) .empty).listKeys true 1 "Entry" = some (.ok (some b)) ∧
    a.types.get? "name" = some type ∧ b.types.get? "name" = some type' ∧ type.bare = type'.bare := by
  obtain ⟨a, ha, hname⟩ := exists_listKeys ⟨entries, .ofTree entries, .empty⟩ false 1 "Entry"
    (fun keys => keys.keys.contains "name" && keys.nodes.get? "name" == some 2) (by decide +kernel)
  obtain ⟨b, hb, hheld⟩ := exists_listKeys ⟨entries, .ofTree entries, .empty⟩ true 1 "Entry"
    (fun keys => keys.nodes.get? "name" == some 5) (by decide +kernel)
  simp only [Bool.and_eq_true, List.contains_iff_mem, beq_iff_eq] at hname hheld
  obtain ⟨hgrown, hshadow, hpaths⟩ := entries_shown
  obtain ⟨-, htypes⟩ := types_of_compressed hgrown hshadow hpaths ha hb
  obtain ⟨leaf, held, type, type', hleaf, hheld', htype, htype', hsame⟩ := htypes "name" hname.1
  obtain rfl := Option.some.inj (hleaf.symm.trans hname.2)
  obtain rfl := Option.some.inj (hheld'.symm.trans hheld)
  refine ⟨a, b, type, type', ha, hb, htype, htype', hsame (.inr (.inr ⟨?_, by decide +kernel, by decide +kernel, ?_⟩))⟩
  · refine ⟨⟨"..", none, [], by decide, by decide, by decide, by decide, by decide⟩,
      ⟨"config", none, [], by decide, by decide, by decide, by decide, by decide⟩,
      ⟨"name", none, [], by decide, by decide, by decide, by decide, by decide⟩, rfl, by decide, by decide, _, rfl, rfl, ?_⟩
    decide +kernel
  · intro p hp
    have hconfig : entries.parent? 5 = some 4 := by decide +kernel
    obtain rfl := Option.some.inj (hp.symm.trans hconfig)
    decide +kernel

/-- Compression redirects the other key to the leaf of its own configuration, where its path does not lead. -/
theorem peer_types : entries.Grown ∧ entries.Unshadowed ∧ entries.DistinctPaths ∧ ∃ a b type type',
    (TypeContext.mk entries (.ofTree entries) .empty).listKeys false 1 "Entry" = some (.ok (some a)) ∧
    (TypeContext.mk entries (.ofTree entries) .empty).listKeys true 1 "Entry" = some (.ok (some b)) ∧
    a.types.get? "peer" = some type ∧ b.types.get? "peer" = some type' ∧
    type.native = "string" ∧ type'.native = "uint32" := by
  obtain ⟨hgrown, hshadow, hpaths⟩ := entries_shown
  obtain ⟨a, ha, htype⟩ := exists_listKeys ⟨entries, .ofTree entries, .empty⟩ false 1 "Entry"
    (fun keys => (keys.types.get? "peer").any (·.native == "string")) (by decide +kernel)
  obtain ⟨b, hb, htype'⟩ := exists_listKeys ⟨entries, .ofTree entries, .empty⟩ true 1 "Entry"
    (fun keys => (keys.types.get? "peer").any (·.native == "uint32")) (by decide +kernel)
  obtain ⟨type, hget, hnative⟩ := (Option.any_eq_true _ _).mp htype
  obtain ⟨type', hget', hnative'⟩ := (Option.any_eq_true _ _).mp htype'
  exact ⟨hgrown, hshadow, hpaths, a, b, type, type', ha, hb, hget, hget', beq_iff_eq.mp hnative, beq_iff_eq.mp hnative'⟩

end ListKey

end SchemaIr
