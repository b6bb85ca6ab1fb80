import SchemaIr.Text.Uppercase

/-! # Upper case of upper case

The first upper-case character of any character is its own upper case (`upper_head`), and what ASCII has besides
capital letters is in no upper case but its own (`eq_of_mem_upper`). ASCII is gone through character by character.
Beyond it, the numbers that have another upper case are compared with the numbers they lead to: no number is among
both (`notMem_firstUppers`). -/

namespace SchemaIr.Text

/-! ### Numbers as bits -/

/-- The numbers of a list as the bits of one number. Long lists are quick to compare in this form. -/
def bits (ns : List Nat) : Nat := ns.foldr (fun n m => m ||| 1 <<< n) 0

theorem testBit_bits {ns : List Nat} {n : Nat} : (bits ns).testBit n = true ↔ n ∈ ns := by
  induction ns with
  | nil => simp [bits]
  | cons m ns ih =>
    rw [bits, List.foldr_cons, Nat.testBit_or, ← bits, Bool.or_eq_true, ih, Nat.one_shiftLeft, Nat.testBit_two_pow,
      decide_eq_true_eq, List.mem_cons, or_comm, eq_comm]

theorem notMem_of_bits {ms ns : List Nat} (h : bits ms &&& bits ns = 0) {n : Nat} (hn : n ∈ ms) : n ∉ ns := by
  intro hn'
  have hboth : (bits ms &&& bits ns).testBit n = true := by
    rw [Nat.testBit_and, testBit_bits.mpr hn, testBit_bits.mpr hn', Bool.and_true]
  simp [h] at hboth

/-! ### Runs of characters -/

namespace CaseRun

/-- The run tells the upper case of the number. -/
def covers (r : CaseRun) (n : Nat) : Bool := r.first ≤ n && n ≤ r.last && (n - r.first) % r.step == 0

/-- All numbers whose upper case the run tells. -/
def numbers (r : CaseRun) : List Nat := List.range' r.first ((r.last - r.first) / r.step + 1) r.step

/-- The number of the upper-case character that the run has for a number. -/
def image (r : CaseRun) (n : Nat) : Nat := r.upper + (n - r.first)

theorem mem_numbers {r : CaseRun} {n : Nat} (h : r.covers n = true) : n ∈ r.numbers := by
  simp only [covers, Bool.and_eq_true, decide_eq_true_eq, beq_iff_eq] at h
  obtain ⟨⟨hfirst, hlast⟩, hstep⟩ := h
  have hdiv := Nat.div_add_mod (n - r.first) r.step
  have hle : (n - r.first) / r.step ≤ (r.last - r.first) / r.step := Nat.div_le_div_right (by omega)
  exact List.mem_range'.mpr ⟨(n - r.first) / r.step, by omega, by omega⟩

end CaseRun

/-- The runs, and for each character with several upper-case characters a run of its own that leads to the first
    one. -/
def leads : List CaseRun := caseRuns ++ wideUppers.map fun e => ⟨e.1, e.1, 1, e.2.headD 0⟩

/-- The numbers beyond ASCII that have another upper case. -/
def cased : List Nat := leads.flatMap (·.numbers)

/-- The numbers of their first upper-case characters. -/
def firstUppers : List Nat := leads.flatMap fun r => r.numbers.map r.image

theorem notMem_firstUppers {n : Nat} : n ∈ cased → n ∉ firstUppers :=
  notMem_of_bits (by decide +kernel)

theorem mem_cased {r : CaseRun} (hr : r ∈ leads) {n : Nat} (h : r.covers n = true) : n ∈ cased :=
  List.mem_flatMap.mpr ⟨r, hr, r.mem_numbers h⟩

theorem image_mem_firstUppers {r : CaseRun} (hr : r ∈ leads) {n : Nat} (h : r.covers n = true) :
    r.image n ∈ firstUppers :=
  List.mem_flatMap.mpr ⟨r, hr, List.mem_map_of_mem (r.mem_numbers h)⟩

/-! ### Capital letters -/

/-- A capital letter of ASCII, or a character beyond ASCII. -/
def CapitalOrBeyond (u : Char) : Prop := (0x41 ≤ u.toNat ∧ u.toNat ≤ 0x5A) ∨ 0x80 ≤ u.toNat

instance (u : Char) : Decidable (CapitalOrBeyond u) := inferInstanceAs (Decidable (_ ∨ _))

theorem forall_ascii {P : Char → Prop} (h : ∀ n < 0x80, P (Char.ofNat n)) {c : Char} (hc : c.toNat < 0x80) : P c :=
  Char.ofNat_toNat c ▸ h c.toNat hc

theorem toUpper_eq_or {c : Char} : c.toNat < 0x80 → c.toUpper = c ∨ CapitalOrBeyond c.toUpper :=
  forall_ascii (P := fun c => c.toUpper = c ∨ CapitalOrBeyond c.toUpper) (by decide)

theorem upper_toUpper {c : Char} : c.toNat < 0x80 → upper c.toUpper = [c.toUpper] :=
  forall_ascii (P := fun c => upper c.toUpper = [c.toUpper]) (by decide)

theorem toUpper_of_capitalOrBeyond {c : Char} : c.toNat < 0x80 → CapitalOrBeyond c → c.toUpper = c :=
  forall_ascii (P := fun c => CapitalOrBeyond c → c.toUpper = c) (by decide)

theorem capitalOrBeyond_of_mem_wideUppers :
    ∀ e ∈ wideUppers, e.2 ≠ [] ∧ ∀ n ∈ e.2, CapitalOrBeyond (Char.ofNat n) := by decide +kernel

theorem toNat_ofNat {n : Nat} (h : n.isValidChar) : (Char.ofNat n).toNat = n := by
  rw [Char.ofNat, dif_pos h]
  rfl

theorem isValidChar_of_mem_firstUppers :
    ∀ n ∈ firstUppers, n.isValidChar ∧ CapitalOrBeyond (Char.ofNat n) := by decide +kernel

/-! ### Upper case -/

/-- How a character comes to its upper case. -/
inductive Cased (c : Char) : List Char → Prop
  | ascii : c.toNat < 0x80 → Cased c [c.toUpper]
  | lead {r : CaseRun} {us : List Char} : r ∈ leads → r.covers c.toNat = true → (∀ u ∈ us, CapitalOrBeyond u) →
      Cased c (Char.ofNat (r.image c.toNat) :: us)
  | own : 0x80 ≤ c.toNat → Cased c [c]

theorem cased_upper (c : Char) : Cased c (upper c) := by
  unfold upper
  dsimp only
  split
  · rename_i hascii
    exact .ascii hascii
  rename_i hascii
  split
  · rename_i n us hwide
    have hmem := List.mem_of_find?_eq_some hwide
    obtain rfl : n = c.toNat := by simpa using List.find?_some hwide
    obtain ⟨hne, hcapital⟩ := capitalOrBeyond_of_mem_wideUppers _ hmem
    obtain ⟨m, ms, rfl⟩ := List.exists_cons_of_ne_nil hne
    -- Among the leads, the character is a run of its own.
    let single : CaseRun := ⟨c.toNat, c.toNat, 1, m⟩
    have hlead : single ∈ leads := List.mem_append_right _ (List.mem_map.mpr ⟨_, hmem, rfl⟩)
    have hcovers : single.covers c.toNat = true := by simp [single, CaseRun.covers]
    have himage : single.image c.toNat = m := by simp [single, CaseRun.image]
    rw [List.map_cons, ← himage]
    exact .lead hlead hcovers (List.forall_mem_map.mpr fun k hk => hcapital k (List.mem_cons_of_mem _ hk))
  · split
    · rename_i r hrun
      have hcovers : r.covers c.toNat = true := List.find?_some (p := fun r : CaseRun => r.covers c.toNat) hrun
      exact .lead (List.mem_append_left _ (List.mem_of_find?_eq_some hrun)) hcovers (List.forall_mem_nil _)
    · exact .own (Nat.le_of_not_lt hascii)

/-- A number beyond ASCII that no run tells the upper case of is its own upper case. -/
theorem upper_of_notMem_cased {c : Char} (h : 0x80 ≤ c.toNat) (hfree : c.toNat ∉ cased) : upper c = [c] := by
  have hcased := cased_upper c
  generalize upper c = us at hcased ⊢
  cases hcased with
  | ascii hascii => omega
  | lead hr hcovers _ => exact absurd (mem_cased hr hcovers) hfree
  | own _ => rfl

/-- The first upper-case character of any character is its own upper case. -/
theorem upper_head (c : Char) : ∃ u us, upper c = u :: us ∧ upper u = [u] := by
  have hcased := cased_upper c
  generalize hus : upper c = us at hcased ⊢
  cases hcased with
  | ascii hascii => exact ⟨c.toUpper, [], rfl, upper_toUpper hascii⟩
  | @lead r us hr hcovers _ =>
    refine ⟨Char.ofNat (r.image c.toNat), us, rfl, ?_⟩
    have himage := image_mem_firstUppers hr hcovers
    obtain ⟨hvalid, hcapital⟩ := isValidChar_of_mem_firstUppers _ himage
    rcases Nat.lt_or_ge (Char.ofNat (r.image c.toNat)).toNat 0x80 with hascii | hbeyond
    · rw [← toUpper_of_capitalOrBeyond hascii hcapital]
      exact upper_toUpper hascii
    · refine upper_of_notMem_cased hbeyond fun hmem => ?_
      rw [toNat_ofNat hvalid] at hmem
      exact notMem_firstUppers hmem himage
  | own _ => exact ⟨c, [], rfl, hus⟩

/-- What ASCII has besides capital letters is in no upper case but its own. -/
theorem eq_of_mem_upper {c u : Char} (hu : u ∈ upper c) (h : ¬ CapitalOrBeyond u) : u = c := by
  have hcased := cased_upper c
  generalize upper c = us at hcased hu
  cases hcased with
  | ascii hascii =>
    obtain rfl := List.mem_singleton.mp hu
    exact (toUpper_eq_or hascii).resolve_right h
  | lead hr hcovers hus =>
    rcases List.mem_cons.mp hu with rfl | hmem
    · exact absurd (isValidChar_of_mem_firstUppers _ (image_mem_firstUppers hr hcovers)).2 h
    · exact absurd (hus u hmem) h
  | own _ => exact List.mem_singleton.mp hu

end SchemaIr.Text
