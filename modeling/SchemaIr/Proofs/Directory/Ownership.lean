import SchemaIr.Proofs.Directory.Fields
import SchemaIr.Proofs.Directory.FakeRoot
import SchemaIr.Proofs.Schema.DataTree
import SchemaIr.Proofs.Text.Pieces

/-! # Owners

A node becomes a field of one directory at most: that of the closest ancestor that compression does not merge into
another one (`owner?`). Every candidate of a directory has it for its owner (`owner?_of_candidate`), for all that
stands between the two are merged wrappers. What the fake root takes over is owned by no directory
(`owner?_ne_of_topDirectory`, `owner?_of_topLeaf`). -/

namespace SchemaIr

namespace Fields
open SchemaTree (Offers Regular)
open Discovery (isElided isMerged isMerged_of_child)

variable {t : SchemaTree} {compress : Bool}

/-- The closest ancestor in the data tree that is not merged into the one around it. -/
def owner? (t : SchemaTree) (compress : Bool) (id : NodeId) : Option NodeId :=
  (t.dataNodes (t.ancestors id)).find? (!isMerged t compress ·)

theorem mem_ancestors_of_owner? {d c : NodeId} (h : owner? t compress c = some d) : d ∈ t.ancestors c :=
  (List.mem_filter.mp (List.mem_of_find?_eq_some h)).1

/-- What a node offers is owned by it, or, if it is merged, by its own owner. -/
theorem owner?_of_offers (ht : t.Regular) {p c : NodeId} (hp : (t.kind p).isChoiceOrCase = false) (h : Offers t p c) :
    owner? t compress c = if isMerged t compress p then owner? t compress p else some p := by
  rw [owner?, h.dataNodes_ancestors ht.matched, SchemaTree.lineage_eq, SchemaTree.dataNodes_cons, hp, owner?]
  cases hm : isMerged t compress p <;> simp [hm]

theorem owner?_of_kept (ht : t.Regular) {p c : NodeId} (hp : (t.kind p).isChoiceOrCase = false)
    (hmerged : isMerged t compress p = false) (h : Offers t p c) : owner? t compress c = some p := by
  rw [owner?_of_offers ht hp h, if_neg (Bool.eq_false_iff.mp hmerged)]

theorem owner?_of_merged (ht : t.Regular) {p c : NodeId} (hp : (t.kind p).isChoiceOrCase = false)
    (hmerged : isMerged t compress p = true) (h : Offers t p c) : owner? t compress c = owner? t compress p := by
  rw [owner?_of_offers ht hp h, if_pos hmerged]

theorem owner?_of_parent {p c : NodeId} (h : t.parent? c = some p) : owner? t compress c =
    if (t.kind p).isChoiceOrCase || isMerged t compress p then owner? t compress p else some p := by
  rw [owner?, SchemaTree.ancestors_of_parent h, SchemaTree.lineage_eq, SchemaTree.dataNodes_cons]
  cases hchoice : (t.kind p).isChoiceOrCase with
  | true => rfl
  | false => cases hmerged : isMerged t compress p <;> simp [hmerged, owner?]

/-- Between a node and its owner stand choices, cases and what is merged, and nothing else. -/
theorem mem_ancestors_cases {a c d : NodeId} (howner : owner? t compress c = some d) (ha : a ∈ t.ancestors c) :
    a ∈ t.lineage d ∨ (t.kind a).isChoiceOrCase = true ∨ isMerged t compress a = true := by
  induction c using Nat.strongRecOn with
  | ind c ih =>
    cases hparent : t.parent? c with
    | none =>
      rw [SchemaTree.ancestors_of_root hparent] at ha
      cases ha
    | some p =>
      rw [owner?_of_parent hparent] at howner
      rw [SchemaTree.ancestors_of_parent hparent] at ha
      by_cases hpassed : ((t.kind p).isChoiceOrCase || isMerged t compress p) = true
      · rw [if_pos hpassed] at howner
        rw [SchemaTree.lineage_eq] at ha
        rcases List.mem_cons.mp ha with rfl | ha
        · exact .inr (Bool.or_eq_true_iff.mp hpassed)
        · exact ih p (SchemaTree.parent?_lt hparent) howner ha
      · rw [if_neg hpassed] at howner
        cases howner
        exact .inl ha

/-! ### Owners of candidates -/

theorem offers_of_resolve {origin : Origin} {p d : NodeId} {c : Candidate} (hd : d ∈ t.children p)
    (hc : c ∈ resolve t origin d) : Offers t p c.node := by
  rcases mem_resolve_iff.mp hc with ⟨-, ⟨hdata, hnode⟩ | ⟨hchoice, ho⟩⟩
  · exact hnode ▸ .child hd hdata
  · exact .through hd hchoice ho

theorem isChoiceOrCase_of_container {w : NodeId} (h : t.kind w = .container) : (t.kind w).isChoiceOrCase = false := by
  rw [h]
  rfl

/-- The list that a container surrounds is owned like the container. -/
theorem owner?_of_wrappedList (ht : t.Regular) {p c list : NodeId} (hp : (t.kind p).isChoiceOrCase = false)
    (hc : c ∈ t.children p) (h : t.wrappedList? c = some list) : owner? t true list = owner? t true c := by
  obtain ⟨hkind, hchildren, hlist⟩ := wrappedList?_eq_some h
  have hoffers : Offers t c list :=
    .child (hchildren ▸ List.mem_singleton_self list) (by rw [hlist]; rfl)
  refine owner?_of_merged ht (isChoiceOrCase_of_container hkind) ?_ hoffers
  rw [isMerged_of_child ht _ hc hp]
  simp [isElided, SchemaTree.isListWrapper, h]

section Compressed
variable {dir : NodeId} (hdir : (t.kind dir).isChoiceOrCase = false) (hmerged : isMerged t true dir = false)
include hdir hmerged

/-- What a wrapper offers is owned by the directory, into which the wrapper is merged. -/
theorem owner?_of_wrapper (ht : t.Regular) {w n : NodeId} (hw : w ∈ t.children dir)
    (hwrapper : t.isConfigOrState w = true) (hn : Offers t w n) : owner? t true n = some dir := by
  have hkind := isChoiceOrCase_of_container (isDirectory_of_isConfigOrState hwrapper)
  have helided : isMerged t true w = true := by
    rw [isMerged_of_child ht _ hw hdir]
    simp [isElided, hwrapper]
  rw [owner?_of_merged ht hkind helided hn, owner?_of_kept ht hdir hmerged (.child hw hkind)]

theorem owner?_of_ofWrapper (ht : t.Regular) {noState : Bool} {w : NodeId} (hw : w ∈ t.children dir)
    (hwrapper : t.isConfigOrState w = true) {c : Candidate} (hc : c ∈ ofWrapper t noState w) :
    owner? t true c.node = some dir := by
  have hkind := isChoiceOrCase_of_container (isDirectory_of_isConfigOrState hwrapper)
  have howner : ∀ {n : NodeId}, Offers t w n → owner? t true n = some dir :=
    owner?_of_wrapper hdir hmerged ht hw hwrapper
  unfold ofWrapper at hc
  split at hc
  · obtain ⟨d, hd, hc⟩ := List.mem_flatMap.mp hc
    split at hc
    · rename_i list hlist
      have hplain := isChoiceOrCase_of_container (wrappedList?_eq_some hlist).1
      rw [List.mem_singleton.mp hc, owner?_of_wrappedList ht hkind hd hlist]
      exact howner (.child hd hplain)
    · exact howner (offers_of_resolve hd hc)
  · cases hc

theorem owner?_of_ofChild (ht : t.Regular) {noState : Bool} {d : NodeId} (hd : d ∈ t.children dir) {c : Candidate}
    (hc : c ∈ ofChild t noState dir d) : owner? t true c.node = some dir := by
  unfold ofChild at hc
  split at hc
  · rename_i hwrapper
    exact owner?_of_ofWrapper hdir hmerged ht hd hwrapper hc
  · split at hc
    · rename_i list hlist
      have hplain := isChoiceOrCase_of_container (wrappedList?_eq_some hlist).1
      rw [List.mem_singleton.mp hc, owner?_of_wrappedList ht hdir hd hlist]
      exact owner?_of_kept ht hdir hmerged (.child hd hplain)
    · split at hc
      · cases hc
      · exact owner?_of_kept ht hdir hmerged (offers_of_resolve hd hc)

end Compressed

/-- Every candidate of a directory that is not merged has it for its owner. -/
theorem owner?_of_candidate (ht : t.Regular) {compression : Compression} {dir : NodeId}
    (hdir : (t.kind dir).isChoiceOrCase = false) (hmerged : isMerged t compression.compresses dir = false)
    {c : Candidate} (hc : c ∈ candidates t compression dir) : owner? t compression.compresses c.node = some dir := by
  have hc := (List.mem_filter.mp hc).1
  unfold sources at hc
  split at hc
  · rename_i hcomp
    rw [hcomp] at hmerged ⊢
    rcases List.mem_append.mp hc with hc | hc
    · cases hfirst : preferred? t compression dir with
      | none => simp [hfirst] at hc
      | some w =>
        obtain ⟨hw, hwrapper⟩ := preferred?_eq_some hfirst
        exact owner?_of_ofWrapper hdir hmerged ht hw hwrapper (by simpa [hfirst] using hc)
    · obtain ⟨d, hd, hc⟩ := List.mem_flatMap.mp hc
      exact owner?_of_ofChild hdir hmerged ht (List.mem_filter.mp hd).1 hc
  · obtain ⟨d, hd, hc⟩ := List.mem_flatMap.mp hc
    exact owner?_of_kept ht hdir hmerged (offers_of_resolve hd hc)

end Fields

/-! ### Paths behind paths -/

namespace SchemaTree
variable {t : SchemaTree}

/-- The path of a node goes on behind that of an ancestor. -/
theorem pathString_of_mem_ancestors {a c : NodeId} (hc : (t.kind c).isChoiceOrCase = false) (h : a ∈ t.ancestors c) :
    t.pathString a ++ "/" ++ "/".intercalate ((t.dataPath c).drop (t.dataPath a).length) = t.pathString c := by
  obtain ⟨rest, hne, hpath⟩ := dataPath_of_mem_ancestors hc h
  rw [pathString, pathString, hpath, List.drop_left, String.intercalate_append_of_ne_nil (t.dataPath_ne_nil a) hne]

end SchemaTree

/-! ### The fake root -/

namespace FakeRoot
open SchemaTree (Offers Reached Regular)
open Fields (owner?)

variable {t : SchemaTree} {compress : Bool}

/-- No directory owns a top-level directory: the path of the owner would be three segments long itself, and there is a
    directory at it. -/
theorem owner?_ne_of_topDirectory (ht : t.Regular) {directories : Table MappedDirectory} {y d : NodeId}
    {m : MappedDirectory} (htop : isTopLevel t directories compress (t.pathString y) y = true)
    (hkind : (t.kind y).isChoiceOrCase = false) (hreached : Reached t d)
    (hd : directories.get? (t.pathString d) = some m) : owner? t compress y ≠ some d := by
  intro howner
  have hpath := SchemaTree.pathString_of_mem_ancestors hkind (Fields.mem_ancestors_of_owner? howner)
  have hpieces := Text.pieces_append (t.pathString d) ("/".intercalate ((t.dataPath y).drop (t.dataPath d).length))
  rw [hpath] at hpieces
  have howned := Nat.le_trans (ht.length_dataPath_of_reached hreached) (Text.length_le_length_pieces (t.dataPath d))
  change 3 ≤ (Text.pieces '/' (t.pathString d)).length at howned
  have hrest := List.length_pos_iff.mpr
    (Text.pieces_ne_nil '/' ("/".intercalate ((t.dataPath y).drop (t.dataPath d).length)))
  have hlength := congrArg List.length hpieces
  rw [List.length_append] at hlength
  simp only [isTopLevel, Bool.or_eq_true, Bool.and_eq_true, beq_iff_eq, Bool.not_eq_true'] at htop
  rcases htop with hthree | ⟨⟨⟨hfour, -⟩, -⟩, hfree⟩
  · omega
  · have htake : (Text.pieces '/' (t.pathString y)).take 3 = Text.pieces '/' (t.pathString d) := by
      rw [hpieces, show 3 = (Text.pieces '/' (t.pathString d)).length by omega, List.take_left]
    rw [htake, Text.intercalate_pieces, Table.contains, hd] at hfree
    cases hfree

/-- A top-level leaf is owned by the root of its module. -/
theorem owner?_of_topLeaf (ht : t.Regular) {r c : NodeId} (hr : r ∈ t.generationRoots) (h : Offers t r c) :
    owner? t compress c = some r := by
  have hkind := Discovery.kind_of_mem_generationRoots ht hr
  refine Fields.owner?_of_kept ht (by rw [hkind]; rfl) ?_ h
  simp [Discovery.isMerged, Discovery.isElided, SchemaTree.isConfigOrState, SchemaTree.isListWrapper,
    SchemaTree.wrappedList?, hkind]

end FakeRoot

end SchemaIr
