import Resilience.Foundations.Lines

/-!
# Message authentication codes

A keyed digest in hexadecimal. What is assumed of one under a key is that it tells messages apart
and is never empty (`Hmac.Ideal`); `Hmac.ofDigest` is such a function with one given digest.
-/

namespace Resilience

/-- From a key and a message to the digest. -/
abbrev Hmac := List UInt8 → List UInt8 → String

namespace Hmac

/-- Under this key, different messages have different digests, and none is empty. -/
structure Ideal (hmac : Hmac) (key : List UInt8) : Prop where
  injective : Function.Injective (hmac key)
  ne_empty : ∀ msg, hmac key msg ≠ ""

/-- Bytes as text, behind a letter that is no hexadecimal digit. -/
def spell (msg : List UInt8) : String := String.ofList ('x' :: msg.map fun b => Char.ofNat b.toNat)

theorem toNat_ofNat_byte (b : UInt8) : (Char.ofNat b.toNat).toNat = b.toNat := by
  have hb := b.toNat_lt
  have hvalid : b.toNat.isValidChar := .inl (by omega)
  rw [Char.ofNat, dif_pos hvalid]
  rfl

theorem spell_injective : Function.Injective spell := by
  intro m m' h
  have hchars := (List.cons.inj (String.ofList_injective h)).2
  refine List.map_injective_iff.2 (fun b b' hb => ?_) hchars
  rw [← UInt8.toNat_inj, ← toNat_ofNat_byte b, ← toNat_ofNat_byte b', hb]

/-- The digest of `msg₀` is `digest`, that of any other message spells it out. -/
def ofDigest (msg₀ : List UInt8) (digest : String) : Hmac := fun _ msg =>
  if msg = msg₀ then digest else spell msg

theorem ideal_ofDigest {msg₀ : List UInt8} {digest : String} {c : Char} {cs : List Char}
    (hdigest : digest.toList = c :: cs) (hc : c ≠ 'x') (key : List UInt8) :
    (ofDigest msg₀ digest).Ideal key := by
  have hspell : ∀ msg, spell msg ≠ digest := by
    intro msg h
    rw [← h, spell, String.toList_ofList] at hdigest
    exact hc (List.cons.inj hdigest).1.symm
  constructor
  · intro m m' h
    simp only [ofDigest] at h
    split_ifs at h with h₁ h₂ h₂
    · rw [h₁, h₂]
    · exact absurd h.symm (hspell _)
    · exact absurd h (hspell _)
    · exact spell_injective h
  · intro msg h
    unfold ofDigest at h
    split_ifs at h
    · rw [h] at hdigest
      simp at hdigest
    · simp [spell] at h

/-- HMAC-SHA256 under the key `k`, on one message. -/
def sample : Hmac :=
  .ofDigest (utf8 ("\x7b\"actor\":\"a\",\"event\":\"e\",\"inputs\":null,\"prev_sig\":\"\"," ++
      "\"sources\":null,\"ts\":\"t\"\x7d").toList)
    "e5e3697c86e8397243117c4c52945ff60cbed17d36ef87e04a0d647bf7d76639"

theorem ideal_sample (key : List UInt8) : sample.Ideal key := ideal_ofDigest rfl (by decide) key

end Hmac

end Resilience
