import Mathlib
import Courier.Crypto.Noise

/-!
## Keys drawn from passphrases

The key of a channel is drawn from the bytes of one text, its name and its passphrase with a zero
byte between them. Which pairs share a key is thus a question about texts: a text is the joint of
several pairs if it has several zeros, and the pairs differ in which of these is the separator.

* `joined`, `joined_eq_iff`: the text of a pair, and the pairs that have the same one.
* `CollisionFree`: what is assumed of the primitives, for the texts that are in use.
* `same_key_iff`: two pairs share a key exactly if the name of one goes on into the passphrase of the
  other. If no name has a zero byte then no two pairs do.
-/

namespace Courier.Passphrase

variable {name name' passphrase passphrase' : String}

/-! ### Texts with a separator -/

/-- The text of one byte, zero. -/
def separator : String := "\x00"

/-- The text from which the key of a pair is drawn. -/
def joined (name passphrase : String) : String := name ++ separator ++ passphrase

/-- Two lists with a common element that agree as a whole agree on either side of it, or one of them
has a further such element behind it where the other one has it. -/
theorem append_cons_eq_append_cons_iff {α : Type} {x : α} {l l' r r' : List α} :
    l ++ x :: r = l' ++ x :: r' ↔
      (l = l' ∧ r = r') ∨ (∃ part, l' = l ++ x :: part ∧ r = part ++ x :: r') ∨
        ∃ part, l = l' ++ x :: part ∧ r' = part ++ x :: r := by
  constructor
  · intro h
    rcases List.append_eq_append_iff.mp h with ⟨part, rfl, hback⟩ | ⟨part, rfl, hback⟩
    · rcases List.cons_eq_append_iff.mp hback with ⟨rfl, hrest⟩ | ⟨further, rfl, hrest⟩
      · exact .inl ⟨(List.append_nil l).symm, (List.cons.inj hrest).2.symm⟩
      · exact .inr (.inl ⟨further, rfl, hrest⟩)
    · rcases List.cons_eq_append_iff.mp hback with ⟨rfl, hrest⟩ | ⟨further, rfl, hrest⟩
      · exact .inl ⟨List.append_nil l', (List.cons.inj hrest).2⟩
      · exact .inr (.inr ⟨further, rfl, hrest⟩)
  · rintro (⟨rfl, rfl⟩ | ⟨part, rfl, rfl⟩ | ⟨part, rfl, rfl⟩)
    · rfl
    all_goals rw [List.append_assoc, List.cons_append]

theorem toList_joined (name passphrase : String) :
    (joined name passphrase).toList = name.toList ++ '\x00' :: passphrase.toList := by
  rw [joined, String.toList_append, String.toList_append, List.append_assoc]
  rfl

theorem eq_joined_iff {text : String} :
    text = joined name passphrase ↔ text.toList = name.toList ++ '\x00' :: passphrase.toList := by
  rw [← toList_joined, String.toList_inj]

/-- **The pairs of one text.** They are the same, or the separator of one is a zero byte in the name or
the passphrase of the other. -/
theorem joined_eq_iff :
    joined name passphrase = joined name' passphrase' ↔
      (name = name' ∧ passphrase = passphrase') ∨
        (∃ part, name' = joined name part ∧ passphrase = joined part passphrase') ∨
          ∃ part, name = joined name' part ∧ passphrase' = joined part passphrase := by
  rw [eq_joined_iff, toList_joined, append_cons_eq_append_cons_iff]
  simp only [String.toList_inj, eq_joined_iff]
  constructor
  · rintro (h | ⟨part, h⟩ | ⟨part, h⟩)
    · exact .inl h
    · exact .inr (.inl ⟨String.ofList part, by rwa [String.toList_ofList]⟩)
    · exact .inr (.inr ⟨String.ofList part, by rwa [String.toList_ofList]⟩)
  · rintro (h | ⟨part, h⟩ | ⟨part, h⟩)
    · exact .inl h
    · exact .inr (.inl ⟨part.toList, h⟩)
    · exact .inr (.inr ⟨part.toList, h⟩)

/-! ### The keys -/

theorem ofString_joined (name passphrase : String) :
    Bytes.ofString (joined name passphrase) =
      Bytes.ofString name ++ 0 :: Bytes.ofString passphrase := by
  have hzero : Bytes.ofString separator = [0] := by decide
  rw [joined, Bytes.ofString_append, Bytes.ofString_append, hzero, List.append_assoc]
  rfl

theorem zero_mem_ofString_joined (name passphrase : String) :
    0 ∈ Bytes.ofString (joined name passphrase) := by
  rw [ofString_joined]
  exact List.mem_append_right _ List.mem_cons_self

section Keys

variable [Cryptography] {family : KeyFamily} {used : Set Bytes}

/-- The key of a pair is drawn from its text. -/
theorem keypair_ofPassphrase (family : KeyFamily) (name passphrase : String) :
    (Channel.ofPassphrase family name passphrase).keypair =
      ⟨family, Cryptography.deriveSecret (Bytes.ofString (joined name passphrase))⟩ := by
  rw [ofString_joined]
  rfl

/-- Among the texts in use no two give the same secret, and no two of their secrets have the same
public half. -/
structure CollisionFree (family : KeyFamily) (used : Set Bytes) : Prop where
  deriveSecret : Set.InjOn Cryptography.deriveSecret used
  publicKey : Set.InjOn (Cryptography.publicKey family) (Cryptography.deriveSecret '' used)

/-- It is enough that the public keys of different texts differ. -/
theorem collisionFree_of_injOn
    (h : Set.InjOn (Cryptography.publicKey family ∘ Cryptography.deriveSecret) used) :
    CollisionFree family used :=
  ⟨Set.InjOn.of_comp h, Set.InjOn.image_of_comp h⟩

/-- Channels share a public key exactly if their texts are the same. -/
theorem publicKey_eq_iff_joined_eq (hfree : CollisionFree family used)
    (hused : Bytes.ofString (joined name passphrase) ∈ used)
    (hused' : Bytes.ofString (joined name' passphrase') ∈ used) :
    (Channel.ofPassphrase family name passphrase).keypair.publicKey =
        (Channel.ofPassphrase family name' passphrase').keypair.publicKey ↔
      joined name passphrase = joined name' passphrase' := by
  rw [keypair_ofPassphrase, keypair_ofPassphrase]
  constructor
  · intro h
    have hpublic := (PublicKey.mk.inj h).2
    have hsecret := hfree.publicKey (Set.mem_image_of_mem _ hused)
      (Set.mem_image_of_mem _ hused') hpublic
    exact Bytes.ofString_inj.mp (hfree.deriveSecret hused hused' hsecret)
  · intro h
    rw [h]

/-- **Which channels share their keys.** Provided that no texts in use collide under the primitives,
two channels have the same key pair, and equally the same public key, exactly if they have the same
name and passphrase, or the name of one is that of the other, a zero byte and a further part, and the
passphrase of the other is this part, a zero byte and the passphrase of the first. Channels whose names
have no zero byte thus differ in their keys if they differ at all. -/
theorem same_key_iff (hfree : CollisionFree family used)
    (hused : Bytes.ofString (joined name passphrase) ∈ used)
    (hused' : Bytes.ofString (joined name' passphrase') ∈ used) :
    [(Channel.ofPassphrase family name passphrase).keypair =
        (Channel.ofPassphrase family name' passphrase').keypair,
      (Channel.ofPassphrase family name passphrase).keypair.publicKey =
        (Channel.ofPassphrase family name' passphrase').keypair.publicKey,
      (name = name' ∧ passphrase = passphrase') ∨
        (∃ part, name' = joined name part ∧ passphrase = joined part passphrase') ∨
          ∃ part, name = joined name' part ∧ passphrase' = joined part passphrase].TFAE ∧
    (0 ∉ Bytes.ofString name → 0 ∉ Bytes.ofString name' →
      (Channel.ofPassphrase family name passphrase).keypair =
        (Channel.ofPassphrase family name' passphrase').keypair →
      name = name' ∧ passphrase = passphrase') := by
  have hpublic := publicKey_eq_iff_joined_eq hfree hused hused'
  rw [joined_eq_iff] at hpublic
  constructor
  · tfae_have 1 → 2 := congrArg Keypair.publicKey
    tfae_have 2 → 3 := hpublic.mp
    tfae_have 3 → 1 := by
      intro h
      rw [keypair_ofPassphrase, keypair_ofPassphrase, joined_eq_iff.mpr h]
    tfae_finish
  · intro hname hname' h
    rcases hpublic.mp (congrArg Keypair.publicKey h) with h | ⟨part, rfl, -⟩ | ⟨part, rfl, -⟩
    · exact h
    · exact absurd (zero_mem_ofString_joined name part) hname'
    · exact absurd (zero_mem_ofString_joined name' part) hname

end Keys

/-- The texts of three channels, of which the last is that of two pairs. -/
def texts : List Bytes :=
  [Bytes.ofString (joined "ops" "pw"), Bytes.ofString (joined "dev" "pw"),
    Bytes.ofString (joined "ops" "dev\x00pw")]

/-- With the primitives that run, `ops` and `dev` do not share a key, and a name that goes on after
`ops` and a zero byte shares that of `ops` with another passphrase. -/
theorem same_key_iff_ops :
    CollisionFree .chacha {text | text ∈ texts} ∧
    (Channel.ofPassphrase .chacha "ops" "pw").keypair ≠
      (Channel.ofPassphrase .chacha "dev" "pw").keypair ∧
    (Channel.ofPassphrase .chacha "ops\x00dev" "pw").keypair =
      (Channel.ofPassphrase .chacha "ops" "dev\x00pw").keypair := by
  have hcheck : ∀ a ∈ texts, ∀ b ∈ texts,
      Cryptography.publicKey .chacha (Cryptography.deriveSecret a) =
        Cryptography.publicKey .chacha (Cryptography.deriveSecret b) → a = b := by
    decide +kernel
  have hfree : CollisionFree .chacha {text | text ∈ texts} :=
    collisionFree_of_injOn fun a ha b hb h => hcheck a ha b hb h
  have hops : Bytes.ofString (joined "ops" "pw") ∈ texts := by decide
  have hdev : Bytes.ofString (joined "dev" "pw") ∈ texts := by decide
  have hlong : Bytes.ofString (joined "ops\x00dev" "pw") ∈ texts := by decide
  have hshort : Bytes.ofString (joined "ops" "dev\x00pw") ∈ texts := by decide
  refine ⟨hfree, fun h => ?_, ?_⟩
  · have hname := ((same_key_iff hfree hops hdev).2 (by decide) (by decide) h).1
    exact absurd hname (by decide)
  · have hcommon := (same_key_iff hfree hlong hshort).1.out 2 0
    exact hcommon.mp (.inr (.inr ⟨"dev", by decide, by decide⟩))

/-- Two channels with nothing in common, neither the name nor the passphrase, have one key, although
no two texts collide. -/
theorem same_key_of_different_names :
    CollisionFree .chacha
      {Bytes.ofString (joined "a\x00b" "c"), Bytes.ofString (joined "a" "b\x00c")} ∧
    ("a\x00b", "c") ≠ ("a", "b\x00c") ∧
    (Channel.ofPassphrase .chacha "a\x00b" "c").keypair =
      (Channel.ofPassphrase .chacha "a" "b\x00c").keypair ∧
    (Channel.ofPassphrase .chacha "a\x00b" "c").keypair.publicKey =
      (Channel.ofPassphrase .chacha "a" "b\x00c").keypair.publicKey := by
  have htext : joined "a\x00b" "c" = joined "a" "b\x00c" := by decide
  have hkey : (Channel.ofPassphrase .chacha "a\x00b" "c").keypair =
      (Channel.ofPassphrase .chacha "a" "b\x00c").keypair := by
    rw [keypair_ofPassphrase, keypair_ofPassphrase, htext]
  refine ⟨?_, by decide, hkey, congrArg Keypair.publicKey hkey⟩
  rw [htext, Set.pair_eq_singleton]
  exact collisionFree_of_injOn (Set.injOn_singleton _ _)

end Courier.Passphrase
