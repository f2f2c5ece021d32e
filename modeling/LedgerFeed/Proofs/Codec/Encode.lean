import LedgerFeed.Codec

/-!
# When a value is encoded

Encoding is total but for the depth of the value: `payload` gives the bytes in an encoding whatever
the depth, and `encode_eq` says when they are given out.
-/

namespace LedgerFeed.Codec

/-- The bytes of a value in an encoding. -/
def payload : Encoding → Value → Bytes
  | .compact, v => Compact.header ++ Compact.write v
  | .verbose, v => Bytes.ofText (Verbose.tree v).toText

/-- Encoding gives the payload of the value, or says that the value is too deep. -/
theorem encode_eq (e : Encoding) (v : Value) :
    encode e v =
      if v.depth ≤ Value.maxDepth then .ok (payload e v) else .error (.unencodable e) := by
  by_cases h : v.depth ≤ Value.maxDepth
  · cases e <;> simp [encode, Compact.encode?, Verbose.encode?, payload, h]
  · cases e <;> simp [encode, Compact.encode?, Verbose.encode?, h]

/-- A value that is not too deep has a payload in either encoding. -/
theorem encode_of_depth_le (e : Encoding) {v : Value} (h : v.depth ≤ Value.maxDepth) :
    encode e v = .ok (payload e v) := by
  rw [encode_eq, if_pos h]

/-- A value that is too deep is encoded by neither encoding. -/
theorem encode_of_lt_depth (e : Encoding) {v : Value} (h : Value.maxDepth < v.depth) :
    encode e v = .error (.unencodable e) := by
  rw [encode_eq, if_neg (Nat.not_le.2 h)]

/-- What is encoded is the payload of a value that is not too deep. -/
theorem encode_ok_iff {e : Encoding} {v : Value} {b : Bytes} :
    encode e v = .ok b ↔ v.depth ≤ Value.maxDepth ∧ payload e v = b := by
  rw [encode_eq]
  split
  · next h => simp [h]
  · next h => simp [h]

/-- Exactly the values that are not too deep are encoded. -/
theorem encodes_iff {e : Encoding} {v : Value} :
    (∃ b, encode e v = .ok b) ↔ v.depth ≤ Value.maxDepth := by
  simp [encode_ok_iff]

end LedgerFeed.Codec
