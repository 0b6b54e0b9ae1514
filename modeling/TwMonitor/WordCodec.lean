import TwMonitor.BitPattern

/-!
# Word codecs and first-match decoders

A codec joins an encoder, the test that recognises its words and a decoder.
The bits that its encoder fixes do not depend on the fields, so a codec has one
pattern, and its position among overlapping codecs is settled by evaluating
`resolve` on that pattern. A decoder need not return the fields that were
encoded: `stored` is what a word of the codec holds of them.
-/
namespace TwMonitor.WordCodec
open BitLayout BitPattern

structure Codec (n m : ℕ) where
  Parts : Type
  [inhabited : Inhabited Parts]
  encode : Parts → Packing n m
  uniform : ∀ parts, (encode parts).base = (encode default).base ∧
    slots (encode parts).steps = slots (encode default).steps := by exact fun _ => ⟨rfl,rfl⟩
  recognise : Matcher n m
  decode : BitVec n → Parts
  stored : Parts → Parts := id
  decode_word : ∀ {parts w}, (encode parts).word = some w → decode w = stored parts

namespace Codec
variable {n m : ℕ}

instance (c : Codec n m) : Inhabited c.Parts := c.inhabited

/-- The bits that the encoder fixes. -/
def pattern (c : Codec n m) : Pattern n := Packed.fixed (c.encode default)

theorem fixed_encode (c : Codec n m) (parts : c.Parts) :
    Packed.fixed (c.encode parts) = c.pattern := by
  obtain ⟨hbase,hslots⟩ := c.uniform parts
  rw [pattern,Packed.fixed,Packed.fixed,hbase,hslots]

theorem pattern_matches {c : Codec n m} {parts : c.Parts} {w : BitVec n}
    (h : (c.encode parts).word = some w) : c.pattern.Matches w := by
  rw [← c.fixed_encode parts]
  exact Packed.fixed_matches h

/-- The recogniser tests every bit that the encoder fixes. -/
def exact (c : Codec n m) : Bool := c.recognise.pattern.refines c.pattern

/-- Encoding after decoding, for an exact recogniser: the word comes back when
the decoded fields pass the guards and name the pieces of the word. -/
theorem word_decode (hnm : n ≤ m) {c : Codec n m} (hc : c.exact = true) {w : BitVec n}
    (hw : c.recognise w = true) (hg : guards (c.encode (c.decode w)).steps = true)
    (hread : Reads w (pieces (c.encode (c.decode w)).steps)) :
    (c.encode (c.decode w)).word = some w := by
  refine Packed.word_of_fixed hnm hg ?_ hread
  rw [c.fixed_encode]
  exact Pattern.matches_of_refines hc ((c.recognise.run_iff w).mp hw)

end Codec

/-! ## Decoding with a list of rules -/

/-- A codec together with the reading of its fields. -/
structure Rule (n m : ℕ) (β : Type*) extends Codec n m where
  read : Parts → β

namespace Rule
variable {n m : ℕ} {β : Type*}

def decodeFirst (rules : List (Rule n m β)) (default : β) : BitVec n → β :=
  firstMatch (fun r => r.recognise) (fun r w => r.read (r.decode w)) default rules

/-- A word decodes to the stored fields of the codec that made it, when that
codec is the one its pattern selects. -/
theorem decodeFirst_word {rules : List (Rule n m β)} {default : β} {r : Rule n m β}
    (hr : resolve (fun r => r.recognise) r.pattern rules = some r) {parts : r.Parts}
    {w : BitVec n} (h : (r.encode parts).word = some w) :
    decodeFirst rules default w = r.read (r.stored parts) := by
  rw [decodeFirst,firstMatch_of_resolve hr _ default (Codec.pattern_matches h),r.decode_word h]

end Rule

end TwMonitor.WordCodec
