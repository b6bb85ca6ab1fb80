import SchemaIr.Ir.Document
import SchemaIr.Proofs.Json.RoundTrip

/-! # What a result is written as

Results are written alike exactly if they differ in nothing but the numbers of their nodes (`Ir.toJson_eq_iff`). A member
that is left out is told from one that is not, since members that may follow have other names. -/

namespace SchemaIr
open Json

/-! ### Lists and tables -/

/-- What one function tells apart, another one tells apart in lists. -/
theorem map_eq_of_map_eq {α β γ : Type} {f : α → β} {g : α → γ} {xs ys : List α}
    (h : ∀ x ∈ xs, ∀ y, f x = f y → g x = g y) (heq : xs.map f = ys.map f) : xs.map g = ys.map g := by
  induction xs generalizing ys with
  | nil =>
    cases ys with
    | nil => rfl
    | cons y ys => cases heq
  | cons x xs ih =>
    cases ys with
    | nil => cases heq
    | cons y ys =>
      obtain ⟨hhead, htail⟩ := List.cons.inj heq
      rw [List.map_cons, List.map_cons, h x List.mem_cons_self y hhead,
        ih (fun x' hx' => h x' (List.mem_cons_of_mem x hx')) htail]

theorem Table.map_eq_of_toJson_eq {α β : Type} {f : α → Value} {g : α → β} (h : ∀ a b, f a = f b → g a = g b)
    {t u : Table α} (heq : t.toJson f = u.toJson f) : (t.map fun _ => g) = u.map fun _ => g := by
  refine Table.ext (map_eq_of_map_eq (fun e _ e' he => ?_) (Value.obj.inj heq))
  obtain ⟨hname, hvalue⟩ := Prod.mk.inj he
  exact Prod.ext hname (h _ _ hvalue)

theorem Table.toJson_injective {α : Type} {f : α → Value} (h : Function.Injective f) :
    Function.Injective (Table.toJson f) := fun t u heq => by
  have hmap : ∀ t : Table α, (t.map fun _ => id) = t := fun t => Table.ext_get? fun name => by simp [Table.get?_map]
  rw [← hmap t, ← hmap u]
  exact Table.map_eq_of_toJson_eq (fun _ _ hab => h hab) heq

namespace Json.Value

theorem texts_injective : Function.Injective texts := fun _ _ h =>
  (List.map_injective_iff.mpr fun _ _ => Value.str.inj) (Value.arr.inj h)

/-! ### Members -/

/-- No member has the name. -/
def Absent (name : String) (ms : List (String × Value)) : Prop := ∀ m ∈ ms, m.1 ≠ name

variable {α : Type} {name other : String} {f : α → Value} {ms ns : List (String × Value)}

@[simp]
theorem absent_nil : Absent name [] := fun _ h => by cases h

@[simp]
theorem absent_cons_iff {m : String × Value} : Absent name (m :: ms) ↔ m.1 ≠ name ∧ Absent name ms :=
  List.forall_mem_cons

@[simp]
theorem absent_append_iff : Absent name (ms ++ ns) ↔ Absent name ms ∧ Absent name ns := List.forall_mem_append

@[simp]
theorem absent_member? (h : other ≠ name) (o : Option α) : Absent name (member? other f o) := by
  cases o <;> simp [member?, h]

@[simp]
theorem absent_listMember (h : other ≠ name) (xs : List α) : Absent name (listMember other f xs) := by
  cases xs <;> simp [listMember, h]

/-- A member of a name, or nothing. -/
def IsPart (name : String) (ps : List (String × Value)) : Prop := ps = [] ∨ ∃ v, ps = [(name, v)]

/-- A member that may be left out is told from the ones after it. -/
theorem IsPart.append_inj {ps qs : List (String × Value)} (hps : IsPart name ps) (hqs : IsPart name qs)
    (hms : Absent name ms) (hns : Absent name ns) (h : ps ++ ms = qs ++ ns) : ps = qs ∧ ms = ns := by
  rcases hps with rfl | ⟨v, rfl⟩
  · rcases hqs with rfl | ⟨w, rfl⟩
    · exact ⟨rfl, h⟩
    · obtain rfl : ms = (name, w) :: ns := h
      exact absurd rfl (hms _ List.mem_cons_self)
  · rcases hqs with rfl | ⟨w, rfl⟩
    · obtain rfl : (name, v) :: ms = ns := h
      exact absurd rfl (hns _ List.mem_cons_self)
    · obtain ⟨hvalue, hrest⟩ := List.cons.inj h
      exact ⟨congrArg (fun m => [m]) hvalue, hrest⟩

theorem member?_append_map_inj {β : Type} {g : α → β} {o o' : Option α} (hf : ∀ a b, f a = f b → g a = g b)
    (hms : Absent name ms) (hns : Absent name ns) (h : member? name f o ++ ms = member? name f o' ++ ns) :
    o.map g = o'.map g ∧ ms = ns := by
  have hpart : ∀ o, IsPart name (member? name f o) := fun o => by
    cases o with
    | none => exact .inl rfl
    | some a => exact .inr ⟨f a, rfl⟩
  obtain ⟨hmember, hrest⟩ := (hpart o).append_inj (hpart o') hms hns h
  refine ⟨?_, hrest⟩
  cases o <;> cases o' <;> simp [member?] at hmember ⊢
  exact hf _ _ hmember

theorem member?_append_inj {o o' : Option α} (hf : Function.Injective f) (hms : Absent name ms) (hns : Absent name ns)
    (h : member? name f o ++ ms = member? name f o' ++ ns) : o = o' ∧ ms = ns := by
  simpa using member?_append_map_inj (g := id) (fun _ _ hab => hf hab) hms hns h

theorem listMember_append_inj {xs ys : List Value} (hms : Absent name ms) (hns : Absent name ns)
    (h : listMember name id xs ++ ms = listMember name id ys ++ ns) : xs = ys ∧ ms = ns := by
  have hpart : ∀ xs, IsPart name (listMember name id xs) := fun xs => by
    cases xs with
    | nil => exact .inl rfl
    | cons x xs => exact .inr ⟨.arr ((x :: xs).map id), rfl⟩
  obtain ⟨hmember, hrest⟩ := (hpart xs).append_inj (hpart ys) hms hns h
  refine ⟨?_, hrest⟩
  cases xs <;> cases ys <;> simp [listMember] at hmember ⊢
  exact hmember

end Json.Value

/-! ### Types -/

namespace MappedType
open Value

@[simp]
theorem absent_tableMember {name other : String} (h : other ≠ name) (t : Table Nat) :
    Absent name (tableMember other t) := by
  unfold tableMember
  split <;> simp [h]

theorem tableMember_append_inj {name : String} {t u : Table Nat} {ms ns : List (String × Value)} (hms : Absent name ms)
    (hns : Absent name ns) (h : tableMember name t ++ ms = tableMember name u ++ ns) : t = u ∧ ms = ns := by
  have hint : Function.Injective fun n : Nat => Value.int n := fun _ _ heq => Int.ofNat.inj (Value.int.inj heq)
  have hpart : ∀ t, IsPart name (tableMember name t) := fun t => by
    unfold tableMember
    split
    · exact .inl rfl
    · exact .inr ⟨_, rfl⟩
  obtain ⟨hmember, hrest⟩ := (hpart t).append_inj (hpart u) hms hns h
  refine ⟨?_, hrest⟩
  unfold tableMember at hmember
  split at hmember
  · split at hmember
    · exact (Table.isEmpty_iff.mp ‹t.isEmpty = true›).trans (Table.isEmpty_iff.mp ‹u.isEmpty = true›).symm
    · cases hmember
  · split at hmember
    · cases hmember
    · exact Table.toJson_injective hint (Prod.mk.inj (List.head_eq_of_cons_eq hmember)).2

theorem jsonMembers_inj {m n : MappedType} {vs ws : List Value} (h : m.jsonMembers vs = n.jsonMembers ws) :
    m.native = n.native ∧ m.positions = n.positions ∧ vs = ws ∧ m.isEnumerated = n.isEnumerated ∧ m.zero = n.zero ∧
      m.default = n.default := by
  rw [jsonMembers, jsonMembers, ← List.append_nil (_ ++ member? "default_value" _ m.default),
    ← List.append_nil (_ ++ member? "default_value" _ n.default)] at h
  simp only [List.append_assoc, List.cons.injEq, Prod.mk.injEq, str.injEq, true_and] at h
  obtain ⟨hnative, h⟩ := h
  obtain ⟨hpositions, h⟩ := tableMember_append_inj (by simp) (by simp) h
  obtain ⟨hmembers, h⟩ := listMember_append_inj (by simp) (by simp) h
  simp only [List.cons_append, List.nil_append, List.cons.injEq, Prod.mk.injEq, bool.injEq, str.injEq, true_and] at h
  obtain ⟨henumerated, hzero, h⟩ := h
  exact ⟨hnative, hpositions, hmembers, henumerated, hzero,
    (member?_append_inj (fun _ _ => str.inj) (by simp) (by simp) h).1⟩

theorem eq_of_toJson_eq (m n : MappedType) (h : m.toJson = n.toJson) : m = n := by
  have ih : ∀ c ∈ m.members, ∀ c', c.toJson = c'.toJson → id c = id c' := fun c _ c' hc => eq_of_toJson_eq c c' hc
  rw [toJson_eq, toJson_eq] at h
  obtain ⟨hnative, hpositions, hmembers, henumerated, hzero, hdefault⟩ := jsonMembers_inj (Value.obj.inj h)
  have hmembers : m.members = n.members := by simpa using map_eq_of_map_eq ih hmembers
  cases m
  cases n
  simp only [mk.injEq] at *
  exact ⟨hnative, hpositions, hmembers, henumerated, hzero, hdefault⟩
termination_by sizeOf m
decreasing_by
  have := List.sizeOf_lt_of_mem ‹c ∈ m.members›
  cases m
  simp only [mk.sizeOf_spec] at *
  omega

theorem toJson_injective : Function.Injective toJson := eq_of_toJson_eq

end MappedType

/-! ### Names -/

theorem FieldKind.name_injective : Function.Injective name := fun a b h => by
  cases a <;> cases b <;> simp [name] at h ⊢

theorem EnumKind.name_injective : Function.Injective name := fun a b h => by
  cases a <;> cases b <;> simp [name] at h ⊢

/-- Batches are written alike only if they are equal, for each is read back. -/
theorem Diagnostics.toJson_injective : Function.Injective toJson := fun a b h => by
  have ha := (a.reads_decode a.toJson.height (Nat.le_refl _)).2
  have hb := (b.reads_decode b.toJson.height (Nat.le_refl _)).2
  rw [h, hb] at ha
  exact (Except.ok.inj ha).symm

/-! ### Results without the numbers of nodes -/

/-- The field without the number of its node. -/
def Field.unnumbered (f : Field) : Field := { f with node := 0 }

/-- The keys without the numbers of their nodes. -/
def ListKeys.unnumbered (k : ListKeys) : ListKeys := { k with nodes := ∅ }

/-- The directory without the numbers of nodes. -/
def Directory.unnumbered (d : Directory) : Directory :=
  { d with fields := d.fields.map fun _ => Field.unnumbered, keys := d.keys.map ListKeys.unnumbered }

/-- The enumeration without the number of its node. -/
def Enumeration.unnumbered (e : Enumeration) : Enumeration := { e with node := 0 }

/-- The result without the numbers of nodes. -/
def Ir.unnumbered (ir : Ir) : Ir :=
  ⟨ir.directories.map fun _ => Directory.unnumbered, ir.enumerations.map fun _ => Enumeration.unnumbered, ir.notes⟩

open Value

theorem Field.unnumbered_eq_of_toJson_eq (f g : Field) (h : f.toJson = g.toJson) : f.unnumbered = g.unnumbered := by
  have h := Value.obj.inj h
  simp only [List.append_assoc, List.cons_append, List.nil_append, List.cons.injEq, Prod.mk.injEq, str.injEq,
    true_and] at h
  obtain ⟨hname, hkind, hpath, h⟩ := h
  obtain ⟨hshadow, h⟩ := member?_append_inj (fun _ _ => str.inj) (by simp) (by simp) h
  obtain ⟨htype, h⟩ := member?_append_inj MappedType.toJson_injective (by simp) (by simp) h
  obtain ⟨hdirectory, h⟩ := member?_append_inj (fun _ _ => str.inj) (by simp) (by simp) h
  simp only [List.cons.injEq, Prod.mk.injEq, str.injEq, true_and, and_true] at h
  simp only [unnumbered, mk.injEq, true_and]
  exact ⟨hname, FieldKind.name_injective hkind, hpath, hshadow, htype, hdirectory, h⟩

theorem ListKeys.unnumbered_eq_of_toJson_eq (k l : ListKeys) (h : k.toJson = l.toJson) :
    k.unnumbered = l.unnumbered := by
  have h := Value.obj.inj h
  simp only [List.cons.injEq, Prod.mk.injEq, true_and, and_true] at h
  obtain ⟨hkeys, htypes, hpaths⟩ := h
  simp only [unnumbered, mk.injEq, true_and]
  exact ⟨texts_injective hkeys, Table.toJson_injective MappedType.toJson_injective htypes,
    Table.toJson_injective (fun _ _ => str.inj) hpaths⟩

theorem Directory.unnumbered_eq_of_toJson_eq (d e : Directory) (h : d.toJson = e.toJson) :
    d.unnumbered = e.unnumbered := by
  have h := Value.obj.inj h
  rw [← List.append_nil (_ ++ member? "belonging_module" _ d.module),
    ← List.append_nil (_ ++ member? "belonging_module" _ e.module)] at h
  simp only [List.append_assoc, List.cons_append, List.nil_append, List.cons.injEq, Prod.mk.injEq, str.injEq,
    true_and] at h
  obtain ⟨hname, hpath, hfields, h⟩ := h
  obtain ⟨hkeys, h⟩ := member?_append_map_inj ListKeys.unnumbered_eq_of_toJson_eq (by simp) (by simp) h
  simp only [List.cons.injEq, Prod.mk.injEq, bool.injEq, true_and] at h
  obtain ⟨hfake, h⟩ := h
  obtain ⟨hmodule, -⟩ := member?_append_inj (fun _ _ => str.inj) (by simp) (by simp) h
  simp only [unnumbered, mk.injEq]
  exact ⟨hname, texts_injective hpath, Table.map_eq_of_toJson_eq Field.unnumbered_eq_of_toJson_eq hfields, hkeys, hfake,
    hmodule⟩

theorem Enumeration.unnumbered_eq_of_toJson_eq (d e : Enumeration) (h : d.toJson = e.toJson) :
    d.unnumbered = e.unnumbered := by
  have h := Value.obj.inj h
  simp only [List.cons.injEq, Prod.mk.injEq, str.injEq, true_and, and_true] at h
  obtain ⟨hname, hkind, hmodule, hvalues, hpath, hpaths⟩ := h
  simp only [unnumbered, mk.injEq, true_and]
  exact ⟨hname, EnumKind.name_injective hkind, hmodule, texts_injective hvalues, hpath, texts_injective hpaths⟩

theorem Table.toJson_map {α β : Type} (f : β → Value) (g : α → β) (t : Table α) :
    (t.map fun _ => g).toJson f = t.toJson fun a => f (g a) := by
  simp [toJson, Table.map]

theorem Directory.toJson_unnumbered (d : Directory) : d.unnumbered.toJson = d.toJson := by
  simp only [toJson, unnumbered, Table.toJson_map]
  cases d.keys <;> rfl

theorem Ir.toJson_unnumbered (ir : Ir) : ir.unnumbered.toJson = ir.toJson := by
  simp only [toJson, unnumbered, Table.toJson_map, Directory.toJson_unnumbered]
  rfl

/-- Results are written alike exactly if they are equal but for the numbers of their nodes. -/
theorem Ir.toJson_eq_iff {a b : Ir} : a.toJson = b.toJson ↔ a.unnumbered = b.unnumbered := by
  constructor
  · intro h
    have h := Value.obj.inj h
    simp only [List.cons_append, List.nil_append, List.cons.injEq, Prod.mk.injEq, true_and] at h
    obtain ⟨hdirectories, henumerations, hnotes⟩ := h
    have hnotes : a.notes = b.notes := by
      have hempty : ∀ ds : Diagnostics, ds.isEmpty = true → ds = ∅ := fun _ h =>
        congrArg Diagnostics.mk (List.isEmpty_iff.mp h)
      split at hnotes
      · split at hnotes
        · rw [hempty a.notes ‹_›, hempty b.notes ‹_›]
        · cases hnotes
      · split at hnotes
        · cases hnotes
        · exact Diagnostics.toJson_injective (Prod.mk.inj (List.head_eq_of_cons_eq hnotes)).2
    simp only [unnumbered, mk.injEq]
    exact ⟨Table.map_eq_of_toJson_eq Directory.unnumbered_eq_of_toJson_eq hdirectories,
      Table.map_eq_of_toJson_eq Enumeration.unnumbered_eq_of_toJson_eq henumerations, hnotes⟩
  · intro h
    rw [← a.toJson_unnumbered, h, b.toJson_unnumbered]

end SchemaIr
