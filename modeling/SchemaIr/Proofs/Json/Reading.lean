import SchemaIr.Json.Decode
import SchemaIr.Proofs.Json.Parse
import SchemaIr.Proofs.Table.Order

/-! # Reading what is written

A decoder reads back what is written for a value, as deep as arrays and objects may nest (`Reads`). Of a record each
member must be that of its field, in the order of the fields, and a field without member must be one that may be left
out and holds what it holds at first (`Written`). What a decoder makes of any source keeps to the bounds that its parts
keep to (`Yields`). -/

namespace SchemaIr.Json

namespace Value

/-! ### Nesting -/

mutual

/-- How deep arrays and objects nest in a value. -/
def height : Value → Nat
  | arr items => heightOfItems items + 1
  | obj members => heightOfMembers members + 1
  | null => 0
  | bool _ => 0
  | int _ => 0
  | str _ => 0

def heightOfItems : List Value → Nat
  | [] => 0
  | v :: vs => max (height v) (heightOfItems vs)

def heightOfMembers : List (String × Value) → Nat
  | [] => 0
  | m :: ms => max (heightOfMember m) (heightOfMembers ms)

def heightOfMember : String × Value → Nat
  | (_, v) => height v

end

theorem height_le_of_mem_items {v : Value} {items : List Value} (h : v ∈ items) : v.height ≤ heightOfItems items := by
  induction items with
  | nil => cases h
  | cons w rest ih =>
    rw [heightOfItems]
    rcases List.mem_cons.mp h with rfl | h
    · exact Nat.le_max_left ..
    · exact Nat.le_trans (ih h) (Nat.le_max_right ..)

theorem height_le_of_mem_members {m : String × Value} {members : List (String × Value)} (h : m ∈ members) :
    m.2.height ≤ heightOfMembers members := by
  induction members with
  | nil => cases h
  | cons n rest ih =>
    rw [heightOfMembers, heightOfMember]
    rcases List.mem_cons.mp h with rfl | h
    · exact Nat.le_max_left ..
    · exact Nat.le_trans (ih h) (Nat.le_max_right ..)

end Value

variable {α β ρ : Type} {depth : Nat} {d : Decoder α}

/-! ### Reading back -/

/-- A decoder that may go so deep reads a value from what is written, unless that nests deeper; all numbers that are
    written have 64 bits. -/
def Reads (depth : Nat) (d : Decoder α) (v : Value) (a : α) : Prop :=
  v.height ≤ depth → v.Bounded ∧ d (Source.ofValue v) = .ok a

namespace Reads

theorem string (depth : Nat) (s : String) : Reads depth Decode.string (.str s) s := fun _ => ⟨.str s, rfl⟩

theorem boolean (depth : Nat) (b : Bool) : Reads depth Decode.boolean (.bool b) b := fun _ => ⟨.bool b, rfl⟩

theorem int64 (depth : Nat) {n : Int} (h : Bounds.minInt64 ≤ n ∧ n ≤ Bounds.maxInt64) :
    Reads depth Decode.int64 (.int n) n := fun _ =>
  ⟨.int ⟨h.1, Int.le_trans h.2 (by decide)⟩, if_pos h⟩

theorem natural (depth : Nat) {n : Nat} (h : n ≤ Bounds.maxNat64) : Reads depth Decode.natural (.int n) n := fun _ => by
  have hmin : Bounds.minInt64 ≤ 0 := by decide
  have hn : (0 : Int) ≤ n ∧ (n : Int) ≤ Bounds.maxNat64 := ⟨Int.natCast_nonneg n, Int.ofNat_le.mpr h⟩
  refine ⟨.int ⟨Int.le_trans hmin hn.1, hn.2⟩, ?_⟩
  simp only [Decode.natural, Source.ofValue, Decode.integer, if_pos hn, Except.map]
  rfl

/-- No array or object is read where nothing may nest. -/
theorem arr_zero {vs : List Value} {a : α} : Reads 0 d (.arr vs) a := fun h => by
  rw [Value.height] at h
  omega

theorem obj_zero {ms : List (String × Value)} {a : α} : Reads 0 d (.obj ms) a := fun h => by
  rw [Value.height] at h
  omega

theorem map {v : Value} {a : α} {w : α → β} (h : Reads depth d v a) : Reads depth (fun s => (d s).map w) v (w a) :=
  fun hdepth => (h hdepth).imp id (congrArg (Except.map w))

/-- A value that has a name, and is known by it. -/
theorem choice (depth allowed : Nat) {ofName : String → Except Error α} {s : String} {a : α} (h : ofName s = .ok a) :
    Reads depth (Decode.choice allowed ofName) (.str s) a := fun _ => ⟨.str s, h⟩

theorem optional {f : α → Value} {o : Option α} (h : ∀ a ∈ o, Reads depth d (f a) a) (hnull : ∀ a ∈ o, f a ≠ .null) :
    Reads depth (Decode.optional d) (.ofOption f o) o := fun hdepth => by
  cases o with
  | none => exact ⟨.null, rfl⟩
  | some a =>
    obtain ⟨hbounded, hread⟩ := h a rfl hdepth
    refine ⟨hbounded, ?_⟩
    rw [Value.ofOption]
    have hnull := hnull a rfl
    generalize f a = v at hread hnull
    cases v with
    | null => exact absurd rfl hnull
    | _ => simp_all [Source.ofValue, Decode.optional, Except.map]

theorem items {f : α → Value} {as : List α} (h : ∀ a ∈ as, d (Source.ofValue (f a)) = .ok a) :
    Decode.items d (Items.ofValues (as.map f)) = .ok as := by
  induction as with
  | nil => rfl
  | cons a rest ih =>
    rw [List.map_cons, Items.ofValues, Decode.items, h a List.mem_cons_self,
      ih fun b hb => h b (List.mem_cons_of_mem a hb)]
    rfl

theorem list {f : α → Value} {as : List α} (h : ∀ a ∈ as, Reads (depth - 1) d (f a) a) :
    Reads depth (Decode.list depth d) (.arr (as.map f)) as := fun hdepth => by
  rw [Value.height] at hdepth
  have hitems : ∀ a ∈ as, (f a).Bounded ∧ d (Source.ofValue (f a)) = .ok a := fun a ha => by
    have hheight : (f a).height ≤ _ := Value.height_le_of_mem_items (List.mem_map_of_mem ha)
    exact h a ha (by omega)
  refine ⟨.arr (List.forall_mem_map.mpr fun a ha => (hitems a ha).1), ?_⟩
  rw [Source.ofValue, Decode.list, if_neg (by omega)]
  exact items fun a ha => (hitems a ha).2

theorem members {f : α → Value} {es : List (String × α)} {t : Table α}
    (h : ∀ e ∈ es, d (Source.ofValue (f e.2)) = .ok e.2) :
    Decode.members d t (Members.ofPairs (es.map fun (k, a) => (k, f a))) =
      .ok (es.foldl (fun t e => t.insert e.1 e.2) t) := by
  induction es generalizing t with
  | nil => rfl
  | cons e rest ih =>
    rw [List.map_cons, Members.ofPairs, Members.ofPair, Decode.members]
    simp only [bind, Except.bind, h e List.mem_cons_self]
    exact ih fun b hb => h b (List.mem_cons_of_mem e hb)

/-- A table is read back from its entries. -/
theorem table {f : α → Value} {t : Table α} (h : ∀ e ∈ t.entries, Reads (depth - 1) d (f e.2) e.2) :
    Reads depth (Decode.table depth d) (.obj (t.entries.map fun (k, a) => (k, f a))) t := fun hdepth => by
  rw [Value.height] at hdepth
  have hentries : ∀ e ∈ t.entries, (f e.2).Bounded ∧ d (Source.ofValue (f e.2)) = .ok e.2 := fun e he => by
    have hmember : (e.1, f e.2) ∈ t.entries.map fun (k, a) => (k, f a) := List.mem_map.mpr ⟨e, he, rfl⟩
    have hheight : (f e.2).height ≤ Value.heightOfMembers _ := Value.height_le_of_mem_members hmember
    exact h e he (by omega)
  refine ⟨.obj (List.forall_mem_map.mpr fun e he => (hentries e he).1), ?_⟩
  rw [Source.ofValue, Decode.table, if_neg (by omega), members fun e he => (hentries e he).2]
  exact congrArg Except.ok (Table.ofList_entries t)

end Reads

/-! ### Records -/

/-- Members are written for the fields of a record in their order, so that reading them one by one makes one record of
    another: each field has a member that it reads, or may be left out. -/
inductive Written (depth : Nat) : List (Decode.Field ρ) → ρ → List (String × Value) → ρ → Prop
  | done {r : ρ} : Written depth [] r [] r
  | given {f : Decode.Field ρ} {fs : List (Decode.Field ρ)} {r r' : ρ} {v : Value} {ms : List (String × Value)}
    {write : ρ → ρ} (hread : Reads depth f.read v write)
    (hrest : Written depth fs (write r) ms r') : Written depth (f :: fs) r ((f.name, v) :: ms) r'
  | omitted {f : Decode.Field ρ} {fs : List (Decode.Field ρ)} {r r' : ρ} {ms : List (String × Value)}
    (hoptional : f.required = false) (hrest : Written depth fs r ms r') : Written depth (f :: fs) r ms r'

namespace Written
variable {fs fields : List (Decode.Field ρ)} {r r' : ρ} {ms : List (String × Value)} {name : String} {w : α → ρ → ρ}

theorem field {v : Value} {a : α} (h : Reads depth d v a) (hrest : Written depth fs (w a r) ms r') :
    Written depth (Decode.field name d w :: fs) r ((name, v) :: ms) r' :=
  .given (f := Decode.field name d w) h.map hrest

theorem fieldOr {v : Value} {a : α} (h : Reads depth d v a) (hrest : Written depth fs (w a r) ms r') :
    Written depth (Decode.fieldOr name d w :: fs) r ((name, v) :: ms) r' :=
  .given (f := Decode.fieldOr name d w) h.map hrest

/-- A field that is left out where it has nothing to say. -/
theorem option {w : Option α → ρ → ρ} {f : α → Value} {o : Option α} (h : ∀ a ∈ o, Reads depth d (f a) a)
    (hnull : ∀ a ∈ o, f a ≠ .null) (hnone : w none r = r) (hrest : Written depth fs (w o r) ms r') :
    Written depth (Decode.fieldOr name (Decode.optional d) w :: fs) r (Value.member? name f o ++ ms) r' := by
  cases o with
  | none => exact .omitted rfl (hnone ▸ hrest)
  | some a => exact .fieldOr (.optional h hnull) hrest

/-- A list field that is left out where the list is empty. -/
theorem list {f : β → Value} {xs : List β} {a : α} (h : Reads depth d (.arr (xs.map f)) a)
    (hnil : xs = [] → w a r = r) (hrest : Written depth fs (w a r) ms r') :
    Written depth (Decode.fieldOr name d w :: fs) r (Value.listMember name f xs ++ ms) r' := by
  cases xs with
  | nil => exact .omitted rfl (hnil rfl ▸ hrest)
  | cons x rest => exact .fieldOr h hrest

theorem find?_field {f : Decode.Field ρ} (hnodup : (fields.map (·.name)).Nodup) (hf : f ∈ fields) :
    fields.find? (·.name == f.name) = some f := by
  induction fields with
  | nil => cases hf
  | cons g rest ih =>
    obtain ⟨hg, hnodup⟩ := List.nodup_cons.mp hnodup
    rcases List.mem_cons.mp hf with rfl | hf
    · simp
    · have hne : g.name ≠ f.name := fun heq => hg (List.mem_map.mpr ⟨f, hf, heq.symm⟩)
      rw [List.find?_cons_of_neg (by simpa using hne), ih hnodup hf]

theorem bounded (h : Written depth fs r ms r') (hheight : Value.heightOfMembers ms ≤ depth) :
    ∀ m ∈ ms, m.2.Bounded := by
  induction h with
  | done => exact List.forall_mem_nil _
  | given hread _ ih =>
    rw [Value.heightOfMembers, Value.heightOfMember, Nat.max_le] at hheight
    exact List.forall_mem_cons.mpr ⟨(hread hheight.1).1, ih hheight.2⟩
  | omitted _ _ ih => exact ih hheight

/-- The members are read field by field, and in the end all fields that must be given were. -/
theorem recordMembers (h : Written depth fs r ms r') (hfields : (fields.map (·.name)).Nodup)
    (hsub : fs.Sublist fields) {seen : List String} (hnew : ∀ f ∈ fs, f.name ∉ seen)
    (hseen : ∀ f ∈ fields, f.required = true → f.name ∈ seen ∨ f ∈ fs) (hheight : Value.heightOfMembers ms ≤ depth) :
    Decode.recordMembers fields seen r (Members.ofPairs ms) = .ok r' := by
  induction h generalizing seen with
  | done =>
    have hnone : (fields.find? fun f => f.required && !seen.contains f.name) = none := by
      refine List.find?_eq_none.mpr fun f hf => ?_
      cases hrequired : f.required with
      | false => simp
      | true => simp [(hseen f hf hrequired).resolve_right List.not_mem_nil]
    rw [Members.ofPairs, Decode.recordMembers, hnone]
    rfl
  | @given f fs r r' v ms write hread _ ih =>
    rw [Value.heightOfMembers, Value.heightOfMember, Nat.max_le] at hheight
    have hnodup : ((f :: fs).map (·.name)).Nodup := hfields.sublist (hsub.map _)
    have hfind := find?_field hfields (hsub.subset List.mem_cons_self)
    rw [Members.ofPairs, Members.ofPair, Decode.recordMembers]
    simp only [bind, Except.bind, hfind, if_neg (hnew f List.mem_cons_self), (hread hheight.1).2]
    refine ih ((List.sublist_cons_self f fs).trans hsub) (fun g hg hmem => ?_) (fun g hg hrequired => ?_) hheight.2
    · rcases List.mem_cons.mp hmem with heq | hmem
      · exact (List.nodup_cons.mp hnodup).1 (List.mem_map.mpr ⟨g, hg, heq⟩)
      · exact hnew g (List.mem_cons_of_mem f hg) hmem
    · rcases hseen g hg hrequired with hin | hin
      · exact .inl (List.mem_cons_of_mem _ hin)
      · refine (List.mem_cons.mp hin).imp (fun heq => ?_) id
        rw [heq]
        exact List.mem_cons_self
  | @omitted f fs r r' ms hoptional _ ih =>
    refine ih ((List.sublist_cons_self f fs).trans hsub) (fun g hg => hnew g (List.mem_cons_of_mem f hg))
      (fun g hg hrequired => ?_) hheight
    refine (hseen g hg hrequired).imp id fun hin => (List.mem_cons.mp hin).resolve_left fun heq => ?_
    simp [heq, hoptional] at hrequired

end Written

theorem Reads.record {title : String} {fields : List (Decode.Field ρ)} {blank r : ρ} {ms : List (String × Value)}
    (hfields : (fields.map (·.name)).Nodup) (h : Written (depth - 1) fields blank ms r) :
    Reads depth (Decode.record title depth fields blank) (.obj ms) r := fun hdepth => by
  rw [Value.height] at hdepth
  refine ⟨.obj (h.bounded (by omega)), ?_⟩
  rw [Source.ofValue, Decode.record, if_neg (by omega)]
  exact h.recordMembers hfields (.refl fields) (fun _ _ => List.not_mem_nil) (fun _ hf _ => .inr hf) (by omega)

/-! ### What is read -/

/-- Whatever a decoder makes of a source has a property. -/
def Yields (d : Decoder α) (P : α → Prop) : Prop := ∀ s a, d s = .ok a → P a

/-- A field keeps a property of the record that it writes to. -/
def Keeps (f : Decode.Field ρ) (Q : ρ → Prop) : Prop := ∀ s write, f.read s = .ok write → ∀ r, Q r → Q (write r)

theorem Keeps.of_yields {f : Decode.Field ρ} {Q : ρ → Prop} {P : α → Prop} {w : α → ρ → ρ}
    (hf : f.read = fun s => (d s).map w) (hd : Yields d P) (hw : ∀ a r, P a → Q r → Q (w a r)) : Keeps f Q := by
  intro s write hread r hr
  rw [hf] at hread
  cases hs : d s with
  | error e => simp [hs, Except.map] at hread
  | ok a =>
    simp only [hs, Except.map, Except.ok.injEq] at hread
    subst hread
    exact hw a r (hd s a hs) hr

/-- A field that writes nothing which the property is about. -/
theorem Keeps.of_free {f : Decode.Field ρ} {Q : ρ → Prop} {w : α → ρ → ρ} (hf : f.read = fun s => (d s).map w)
    (hw : ∀ a r, Q r → Q (w a r)) : Keeps f Q :=
  .of_yields (P := fun _ => True) hf (fun _ _ _ => trivial) fun a r _ => hw a r

namespace Yields
variable {P : α → Prop}

theorem integer (low high : Int) (expected : String) :
    Yields (Decode.integer low high expected) fun n => low ≤ n ∧ n ≤ high := by
  intro s n h
  unfold Decode.integer at h
  split at h
  · split at h
    · cases h
      assumption
    · cases h
  · cases h

theorem natural : Yields Decode.natural (· ≤ Bounds.maxNat64) := by
  intro s n h
  unfold Decode.natural at h
  cases hs : Decode.integer 0 Bounds.maxNat64 "usize" s with
  | error e => simp [hs, Except.map] at h
  | ok m =>
    simp only [hs, Except.map, Except.ok.injEq] at h
    have := integer _ _ _ s m hs
    omega

theorem optional (h : Yields d P) : Yields (Decode.optional d) fun o => ∀ a ∈ o, P a := by
  intro s o hs a ha
  unfold Decode.optional at hs
  split at hs
  · cases hs
    cases ha
  · cases hd : d s with
    | error e => simp [hd, Except.map] at hs
    | ok b =>
      simp only [hd, Except.map, Except.ok.injEq] at hs
      subst hs
      cases ha
      exact h s a hd

theorem items (h : Yields d P) : ∀ {is : Items} {as : List α}, Decode.items d is = .ok as → ∀ a ∈ as, P a
  | .cons item rest, as, hs => by
    rw [Decode.items] at hs
    simp only [bind, Except.bind] at hs
    split at hs
    · cases hs
    · rename_i a ha
      split at hs
      · cases hs
      · rename_i as' has
        cases hs
        exact List.forall_mem_cons.mpr ⟨h item a ha, items h has⟩
  | .stop e, as, hs => by
    rw [Decode.items] at hs
    simp only [bind, Except.bind] at hs
    split at hs
    · cases hs
    · cases hs
      simp

theorem list (h : Yields d P) : Yields (Decode.list depth d) fun as => ∀ a ∈ as, P a := by
  intro s as hs
  unfold Decode.list at hs
  split at hs
  · split at hs
    · cases hs
    · exact items h hs
  · cases hs

theorem members (h : Yields d P) : ∀ {ms : Members} {t u : Table α}, (∀ name a, t.get? name = some a → P a) →
    Decode.members d t ms = .ok u → ∀ name a, u.get? name = some a → P a
  | .cons key value rest, t, u, ht, hs => by
    rw [Decode.members] at hs
    simp only [bind, Except.bind] at hs
    split at hs
    · cases hs
    · rename_i k _
      split at hs
      · cases hs
      · rename_i a ha
        refine members h (fun name b hget => ?_) hs
        rw [Table.get?_insert] at hget
        split at hget
        · cases hget
          exact h value a ha
        · exact ht name b hget
  | .stop e, t, u, ht, hs => by
    rw [Decode.members] at hs
    simp only [bind, Except.bind] at hs
    split at hs
    · cases hs
    · cases hs
      exact ht
  | .brokenKey _ _, _, _, _, hs => by simp [Decode.members] at hs
  | .otherKey _, _, _, _, hs => by simp [Decode.members] at hs

theorem table (h : Yields d P) : Yields (Decode.table depth d) fun t => ∀ name a, t.get? name = some a → P a := by
  intro s t hs
  unfold Decode.table at hs
  split at hs
  · split at hs
    · cases hs
    · exact members h (fun _ _ hget => by cases hget) hs
  · cases hs

section Record
variable {Q : ρ → Prop} {fields : List (Decode.Field ρ)}

theorem recordMembers (h : ∀ f ∈ fields, Keeps f Q) : ∀ {ms : Members} {seen : List String} {r a : ρ}, Q r →
    Decode.recordMembers fields seen r ms = .ok a → Q a
  | .cons key value rest, seen, r, a, hr, hs => by
    rw [Decode.recordMembers] at hs
    simp only [bind, Except.bind] at hs
    split at hs
    · cases hs
    · split at hs
      · split at hs
        · cases hs
        · exact recordMembers h hr hs
      · rename_i f hf
        split at hs
        · cases hs
        · split at hs
          · cases hs
          · rename_i write hwrite
            exact recordMembers h (h f (List.mem_of_find?_eq_some hf) value write hwrite r hr) hs
  | .stop e, seen, r, a, hr, hs => by
    rw [Decode.recordMembers] at hs
    simp only [bind, Except.bind] at hs
    split at hs
    · cases hs
    · split at hs
      · cases hs
      · cases hs
        exact hr
  | .brokenKey _ _, _, _, _, _, hs => by simp [Decode.recordMembers] at hs
  | .otherKey _, _, _, _, _, hs => by simp [Decode.recordMembers] at hs

theorem recordItems {expected : String} {fs : List (Decode.Field ρ)} (h : ∀ f ∈ fs, Keeps f Q) {read : Nat} {is : Items}
    {r a : ρ} (hr : Q r) (hs : Decode.recordItems expected r read fs is = .ok a) : Q a := by
  induction fs generalizing read is r with
  | nil =>
    cases is with
    | cons item rest => cases hs
    | stop e =>
      simp only [Decode.recordItems, bind, Except.bind] at hs
      split at hs
      · cases hs
      · cases hs
        exact hr
  | cons f fs ih =>
    cases is with
    | cons item rest =>
      simp only [Decode.recordItems, bind, Except.bind] at hs
      split at hs
      · cases hs
      · rename_i write hwrite
        exact ih (fun g hg => h g (List.mem_cons_of_mem f hg)) (h f List.mem_cons_self item write hwrite r hr) hs
    | stop e =>
      simp only [Decode.recordItems, bind, Except.bind] at hs
      split at hs
      · cases hs
      · split at hs
        · cases hs
        · cases hs
          exact hr

theorem record {title : String} {blank : ρ} (h : ∀ f ∈ fields, Keeps f Q) (hblank : Q blank) :
    Yields (Decode.record title depth fields blank) Q := by
  intro s a hs
  unfold Decode.record at hs
  split at hs
  · split at hs
    · cases hs
    · exact recordMembers h hblank hs
  · split at hs
    · cases hs
    · exact recordItems h hblank hs
  · cases hs

end Record

end Yields

end SchemaIr.Json
