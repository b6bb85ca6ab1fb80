import SchemaIr.Ir.Checksum
import SchemaIr.Proofs.Ir.Document
import SchemaIr.Proofs.Json.Compact

/-! # What a checksum tells

A checksum is that of all results that are written alike, and of no others but those whose texts collide
(`Ir.verifies_iff`). -/

namespace SchemaIr

/-! ### Digests as text -/

namespace Sha256

theorem ofRadix?_append {base : Nat} (ds es : List Char) :
    Text.ofRadix? base (ds ++ es) =
      (Text.ofRadix? base ds).bind fun n => es.foldlM (fun n c => (Text.digitIn? base c).map (base * n + ·)) n := by
  rw [Text.ofRadix?, List.foldlM_append]
  rfl

/-- The number that hexadecimal digits are written for is read back. -/
theorem ofRadix?_hex (n : Nat) : Text.ofRadix? 16 (Text.hex n) = some n := by
  induction n using Nat.strongRecOn with
  | ind n ih =>
    have hdigit : ∀ d < 16, Text.digitIn? 16 (Nat.digitChar d) = some d := by decide
    rw [Text.hex, Nat.toDigits_eq_if (by decide)]
    split
    · simp [Text.ofRadix?, hdigit n ‹_›]
    · have hrest : Text.ofRadix? 16 (Nat.toDigits 16 (n / 16)) = some (n / 16) := ih (n / 16) (by omega)
      rw [ofRadix?_append, hrest]
      simp only [Option.bind_some, List.foldlM_cons, List.foldlM_nil, hdigit (n % 16) (Nat.mod_lt _ (by decide))]
      simp
      omega

theorem ofRadix?_zeros (count : Nat) (ds : List Char) :
    Text.ofRadix? 16 (List.replicate count '0' ++ ds) = Text.ofRadix? 16 ds := by
  induction count with
  | zero => rfl
  | succ count ih =>
    rw [List.replicate_succ, List.cons_append, ← ih]
    rfl

theorem toList_wordText (w : UInt32) :
    (wordText w).toList = List.replicate (8 - (Text.hex w.toNat).length) '0' ++ Text.hex w.toNat := by
  simp [wordText]

theorem length_wordText (w : UInt32) : (wordText w).toList.length = 8 := by
  have hle : (Text.hex w.toNat).length ≤ 8 := (Nat.length_toDigits_le_iff (by decide) (by decide)).mpr w.toNat_lt
  rw [toList_wordText, List.length_append, List.length_replicate]
  omega

theorem wordText_injective : Function.Injective wordText := fun v w h => by
  have hv := ofRadix?_hex v.toNat
  have hw := ofRadix?_hex w.toNat
  rw [← ofRadix?_zeros (8 - (Text.hex v.toNat).length), ← toList_wordText, h] at hv
  rw [← ofRadix?_zeros (8 - (Text.hex w.toNat).length), ← toList_wordText, hv] at hw
  exact UInt32.toNat_inj.mp (Option.some.inj hw)

theorem join_wordText_inj {vs ws : List UInt32} (hlength : vs.length = ws.length)
    (h : vs.flatMap (fun w => (wordText w).toList) = ws.flatMap fun w => (wordText w).toList) : vs = ws := by
  induction vs generalizing ws with
  | nil =>
    cases ws with
    | nil => rfl
    | cons w ws => cases hlength
  | cons v vs ih =>
    cases ws with
    | nil => cases hlength
    | cons w ws =>
      rw [List.flatMap_cons, List.flatMap_cons] at h
      obtain ⟨hword, hrest⟩ := List.append_inj h (by rw [length_wordText, length_wordText])
      rw [wordText_injective (String.toList_injective hword), ih (Nat.succ.inj hlength) hrest]

theorem length_digest (message : ByteArray) : (digest message).length = 8 := by
  rw [digest]
  rfl

/-- Messages have one digest in hexadecimal digits exactly if they have one digest. -/
theorem hexDigest_eq_iff {m n : ByteArray} : hexDigest m = hexDigest n ↔ digest m = digest n := by
  refine ⟨fun h => join_wordText_inj ((length_digest m).trans (length_digest n).symm) ?_,
    fun h => by rw [hexDigest, h, hexDigest]⟩
  have htext := congrArg String.toList h
  rwa [hexDigest, hexDigest, String.toList_join, String.toList_join, List.flatMap_map, List.flatMap_map] at htext

/-- Two messages that differ have one digest. -/
def Collide (m n : ByteArray) : Prop := m ≠ n ∧ digest m = digest n

end Sha256

/-! ### Checksums of results -/

namespace Ir

theorem bytes_eq_iff {a b : Ir} : a.bytes = b.bytes ↔ a.toJson = b.toJson := by
  refine ⟨fun h => Json.Value.compact_injective (String.toByteArray_inj.mp h), fun h => ?_⟩
  rw [bytes, h, bytes]

/-- What a result is written as settles it but for the numbers of its nodes, and a checksum verifies exactly the results
    that are written alike, or collide. -/
theorem verifies_iff (a b : Ir) :
    (a.toJson = b.toJson ↔ a.unnumbered = b.unnumbered) ∧ (a.bytes = b.bytes ↔ a.unnumbered = b.unnumbered) ∧
    (verifies a.checksum b = true ↔ a.unnumbered = b.unnumbered ∨ Sha256.Collide a.bytes b.bytes) := by
  refine ⟨toJson_eq_iff, bytes_eq_iff.trans toJson_eq_iff, ?_⟩
  rw [verifies, beq_iff_eq, checksum, checksum, Sha256.hexDigest_eq_iff, ← toJson_eq_iff, ← bytes_eq_iff]
  by_cases h : a.bytes = b.bytes
  · simp [h]
  · simp [h, Sha256.Collide, eq_comm]

end Ir

end SchemaIr
