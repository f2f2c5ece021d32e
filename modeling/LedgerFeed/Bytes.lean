/-!
# Byte strings

A byte string is a list of bytes, so that a reader returns what it has not read. Numbers are
written highest byte first, and text in UTF-8: `text?_ofText` and `ofText_of_text?` say that a byte
string is the form of at most one text and that every text has one.

The powers of naturals and integers are those of the core library, whatever else is imported, so
that `2 ^ 64` is one term in the program and in a proof.
-/

attribute [instance (high + 1), default_instance (high + 1)] instPowNat

namespace LedgerFeed

/-- A string of bytes. -/
abbrev Bytes := List UInt8

namespace Bytes

/-- The number whose digits to base 256 are the bytes, highest first. -/
def toNat (b : Bytes) : Nat :=
  b.foldl (fun n x => 256 * n + x.toNat) 0

/-- The `k` lowest digits of a number to base 256, highest first. -/
def ofNat : Nat → Nat → Bytes
  | 0, _ => []
  | k + 1, n => ofNat k (n / 256) ++ [UInt8.ofNat n]

/-- A byte string read as a two's complement number: the first bit has negative weight. -/
def toInt (b : Bytes) : Int :=
  if 2 * toNat b < 256 ^ b.length then toNat b else (toNat b : Int) - (256 ^ b.length : Nat)

/-- The `k` bytes of a number in two's complement, highest first. -/
def ofInt (k : Nat) (n : Int) : Bytes :=
  ofNat k (n % (256 ^ k : Nat)).toNat

/-- The UTF-8 form of a text. -/
def ofText (s : String) : Bytes :=
  s.toByteArray.data.toList

/-- The text that a byte string is the UTF-8 form of, if it is well formed. -/
def text? (b : Bytes) : Option String :=
  String.fromUTF8? ⟨b.toArray⟩

/-- Reading the UTF-8 form of a text gives the text. -/
theorem text?_ofText (s : String) : text? (ofText s) = some s := by
  have h : (⟨(ofText s).toArray⟩ : ByteArray) = s.toByteArray := by simp [ofText]
  simp [text?, h, String.fromUTF8?, s.isValidUTF8, String.fromUTF8]

/-- A byte string that reads as a text is its UTF-8 form. -/
theorem ofText_of_text? {b : Bytes} {s : String} (h : text? b = some s) : ofText s = b := by
  unfold text? String.fromUTF8? at h
  split at h
  · cases h; simp [ofText, String.fromUTF8]
  · cases h

end Bytes

end LedgerFeed
