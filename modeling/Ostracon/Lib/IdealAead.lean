import Mathlib
/-!
# Ideal authenticated ciphers

An AEAD under one key, with no additional data, is its `Seal` and `Open`
(`sealText` and `openText`) on a nonce and a text.  It is *ideal* here when four things
hold.  Opening inverts sealing.  Only a sealed text opens: this is the usual
idealisation of ciphertext integrity, where whoever lacks the key makes no
sealed text of their own.  Two sealings under two nonces of the width in use
never coincide.  A sealed text is its plain text plus `overhead` bytes.
`tagged` shows that the four properties can hold at once.
-/

namespace IdealAead

/-- An AEAD under one key: `Seal` and `Open` on a nonce and a text. -/
structure Aead where
  sealText : List UInt8 → List UInt8 → List UInt8
  openText : List UInt8 → List UInt8 → Option (List UInt8)

/-- The hypotheses placed on an AEAD with nonces of `nonceSize` bytes. -/
structure Ideal (aead : Aead) (nonceSize overhead : Nat) : Prop where
  openText_sealText : ∀ nonce text, aead.openText nonce (aead.sealText nonce text) = some text
  eq_sealText_of_openText : ∀ {nonce sealed text}, aead.openText nonce sealed = some text →
    sealed = aead.sealText nonce text
  sealText_inj : ∀ {nonce nonce' text text'}, nonce.length = nonceSize → nonce'.length = nonceSize →
    aead.sealText nonce text = aead.sealText nonce' text' → nonce = nonce' ∧ text = text'
  length_sealText : ∀ nonce text, (aead.sealText nonce text).length = text.length + overhead

/-! ## A concrete ideal AEAD -/

/-- The `overhead` bytes appended to a text: the nonce, padded with zeros. -/
def tag (overhead : Nat) (nonce : List UInt8) : List UInt8 :=
  (nonce ++ List.replicate overhead 0).take overhead

/-- Sealing appends the tag of the nonce, and opening checks it. -/
def tagged (overhead : Nat) : Aead where
  sealText nonce text := text ++ tag overhead nonce
  openText nonce sealed :=
    if overhead ≤ sealed.length ∧ sealed.drop (sealed.length - overhead) = tag overhead nonce then
      some (sealed.take (sealed.length - overhead))
    else none

theorem length_tag (overhead : Nat) (nonce : List UInt8) : (tag overhead nonce).length = overhead := by
  simp [tag]

theorem tag_inj {overhead : Nat} {nonce nonce' : List UInt8} (hlen : nonce.length = nonce'.length)
    (hfit : nonce.length ≤ overhead) (h : tag overhead nonce = tag overhead nonce') : nonce = nonce' := by
  have hfit' : nonce'.length ≤ overhead := hlen ▸ hfit
  rw [tag, tag, List.take_append, List.take_append, List.take_of_length_le hfit,
    List.take_of_length_le hfit'] at h
  exact List.append_inj_left h hlen

theorem tagged_ideal {nonceSize overhead : Nat} (hfit : nonceSize ≤ overhead) :
    Ideal (tagged overhead) nonceSize overhead where
  openText_sealText nonce text := by
    have hlen : (text ++ tag overhead nonce).length - overhead = text.length := by
      simp [length_tag]
    simp only [tagged]
    rw [if_pos ⟨by simp [length_tag], by rw [hlen, List.drop_left]⟩, hlen, List.take_left]
  eq_sealText_of_openText {nonce sealed text} h := by
    simp only [tagged] at h
    split_ifs at h with hok
    cases h
    -- the text opened and the tag checked make up the sealed text
    simp only [tagged]
    rw [← hok.2, List.take_append_drop]
  sealText_inj {nonce nonce' text text'} hlen hlen' h := by
    simp only [tagged] at h
    obtain ⟨htext, htag⟩ := List.append_inj h (by
      have := congrArg List.length h
      simp only [List.length_append, length_tag] at this
      omega)
    exact ⟨tag_inj (hlen.trans hlen'.symm) (hlen ▸ hfit) htag, htext⟩
  length_sealText nonce text := by
    simp [tagged, length_tag]

end IdealAead
