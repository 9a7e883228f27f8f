import ChainLab.Chain.State
import ChainLab.Proofs.Encoding
import Mathlib.Data.List.Nodup

/-!
# Hashed strings can be read back

Every string that is hashed starts with a framed domain and goes on with fields that are framed,
counted or of fixed width. It spells at most one value, as long as each length in it fits in eight
bytes. In a string shorter than `2 ^ 64` bytes all of them do.
-/

namespace ChainLab

structure Level.Fits (level : Level) : Prop where
  actor : level.actor.utf8ByteSize < UInt64.size
  permission : level.permission.utf8ByteSize < UInt64.size

/-- Every length in the message can be written in eight bytes. -/
structure Message.Fits (m : Message) : Prop where
  contract : m.contract.utf8ByteSize < UInt64.size
  count : m.authorizations.toList.length < UInt64.size
  levels : ∀ level ∈ m.authorizations.toList, level.Fits
  type : m.type.utf8ByteSize < UInt64.size
  payload : m.payload.length < UInt64.size

/-- Every length in the transaction can be written in eight bytes. -/
structure Transaction.Fits (t : Transaction) : Prop where
  count : t.messages.length < UInt64.size
  messages : ∀ m ∈ t.messages, m.Fits

theorem readable_level :
    Readable Level.Fits fun level => framedText level.actor ++ framedText level.permission := by
  have code := readable_framedText.append readable_framedText
  have spelled := code.comp (v := fun level : Level => (level.actor, level.permission)) (by
    rintro ⟨a, p⟩ ⟨b, q⟩ h
    cases h
    rfl)
  exact spelled.mono fun level fits => ⟨fits.actor, fits.permission⟩

theorem readable_message : Readable Message.Fits Message.fields := by
  have code := readable_framedText.append ((readable_counted readable_level).append
    (readable_framedText.append readable_framed))
  have spelled := code.comp
    (v := fun m : Message => (m.contract, m.authorizations.toList, m.type, m.payload)) (by
      rintro ⟨c, l, t, p⟩ ⟨c', l', t', p'⟩ h
      simp only [Prod.mk.injEq] at h
      obtain ⟨rfl, hl, rfl, rfl⟩ := h
      rw [Std.ExtTreeSet.toList_inj.mp hl])
  refine (Readable.congr spelled fun m => ?_).mono fun m fits => ?_
  · simp only [Message.fields, List.append_assoc]
  · exact ⟨fits.contract, ⟨fits.count, fits.levels⟩, fits.type, fits.payload⟩

theorem readable_transaction : Readable Transaction.Fits Transaction.preimage := by
  have code := readable_word64.append (readable_word32.append
    (readable_word32.append (readable_counted readable_message)))
  have fields := code.comp
    (v := fun t : Transaction =>
      (t.expiration.ticks, t.refBlockNum, t.refBlockTag, t.messages)) (by
      rintro ⟨⟨e⟩, n, g, m⟩ ⟨⟨e'⟩, n', g', m'⟩ h
      cases h
      rfl)
  exact fields.under _ (fun t => by simp) fun t fits =>
    ⟨trivial, trivial, trivial, fits.count, fits.messages⟩

theorem readable_signing :
    Readable (fun _ => True) fun x : Digest × Digest => Transaction.signingPreimage x.1 x.2 := by
  have fields := readable_framedDigest.append readable_framedDigest
  exact fields.under _ (fun x => by simp) fun x _ => ⟨trivial, trivial⟩

theorem readable_root :
    Readable (fun digests => digests.length < UInt64.size) Block.rootPreimage := by
  have fields := readable_counted readable_framedDigest
  exact fields.under _ (fun digests => by simp) fun digests fits => ⟨fits, fun _ _ => trivial⟩

theorem readable_genesisAccount :
    Readable (fun account => account.name.utf8ByteSize < UInt64.size)
      ChainState.genesisPreimage := by
  have code := readable_framedText.append (readable_framedDigest.append readable_word64)
  have fields := code.comp
    (v := fun a : GenesisAccount => (a.name, a.publicKey.bytes, a.balance.units)) (by
      rintro ⟨n, ⟨k⟩, ⟨b⟩⟩ ⟨n', ⟨k'⟩, ⟨b'⟩⟩ h
      cases h
      rfl)
  exact fields.under _ (fun a => by simp) fun a fits => ⟨fits, trivial, trivial⟩

theorem readable_genesis :
    Readable (fun _ => True) fun x : Digest × Digest × Time =>
      BlockHeader.genesisPreimage x.1 x.2.1 x.2.2 := by
  have code := readable_framedDigest.append (readable_framedDigest.append readable_word64)
  have fields := code.comp (v := fun x : Digest × Digest × Time => (x.1, x.2.1, x.2.2.ticks)) (by
    rintro ⟨c, d, ⟨t⟩⟩ ⟨c', d', ⟨t'⟩⟩ h
    cases h
    rfl)
  exact fields.under _ (fun x => by simp) fun x _ => ⟨trivial, trivial, trivial⟩

/-- What is written of a header, which is all of it but its identifier. -/
theorem readable_headerFields :
    Readable (fun x : Digest × UInt32 × UInt64 × NodeName × Digest =>
        x.2.2.2.1.utf8ByteSize < UInt64.size) fun x => ChainLab.preimage "authsim/block"
      [framedDigest x.1, word32 x.2.1, word64 x.2.2.1, framedText x.2.2.2.1,
       framedDigest x.2.2.2.2] := by
  have fields := readable_framedDigest.append (readable_word32.append
    (readable_word64.append (readable_framedText.append readable_framedDigest)))
  exact fields.under _ (fun x => by simp) fun x fits => ⟨trivial, trivial, trivial, fits, trivial⟩

/-- A header's string determines everything in the header but its identifier. -/
theorem BlockHeader.eq_of_preimage_eq {h k : BlockHeader}
    (fitsH : h.producer.utf8ByteSize < UInt64.size) (fitsK : k.producer.utf8ByteSize < UInt64.size)
    (same : h.preimage = k.preimage) : h = { k with id := h.id } := by
  have fields := readable_headerFields.eq_of_eq
    (a := (h.previous.digest, h.num, h.time.ticks, h.producer, h.root))
    (b := (k.previous.digest, k.num, k.time.ticks, k.producer, k.root)) fitsH fitsK same
  obtain ⟨_, ⟨p⟩, n, ⟨t⟩, m, r⟩ := h
  obtain ⟨_, ⟨p'⟩, n', ⟨t'⟩, m', r'⟩ := k
  cases fields
  rfl

/-- Strings under different domains differ. -/
theorem domain_eq_of_preimage_eq {domain domain' : String} {fields fields' : List (List UInt8)}
    (fits : domain.utf8ByteSize < UInt64.size) (fits' : domain'.utf8ByteSize < UInt64.size)
    (same : preimage domain fields = preimage domain' fields') : domain = domain' :=
  (readable_framedText fits fits' same).1

/-! ### Short strings -/

section short

theorem length_le_flatMap {α : Type} {f : α → List UInt8} (nonempty : ∀ a, f a ≠ [])
    (xs : List α) : xs.length ≤ (xs.flatMap f).length := by
  induction xs with
  | nil => exact Nat.le_refl 0
  | cons x xs ih =>
    have := List.length_pos_iff.mpr (nonempty x)
    simp only [List.flatMap_cons, List.length_append, List.length_cons]
    omega

theorem length_le_flatMap_of_mem {α : Type} {f : α → List UInt8} {xs : List α} {x : α}
    (hx : x ∈ xs) : (f x).length ≤ (xs.flatMap f).length :=
  (List.sublist_flatten_of_mem (List.mem_map_of_mem hx)).length_le

@[simp] theorem length_framed (bytes : List UInt8) : (framed bytes).length = 8 + bytes.length := by
  simp [framed]

@[simp] theorem length_framedText (text : String) :
    (framedText text).length = 8 + text.utf8ByteSize := by
  rw [framedText, length_framed, length_toList_toUTF8]

theorem framed_ne_nil (bytes : List UInt8) : framed bytes ≠ [] := by
  intro h
  have := congrArg List.length h
  simp at this

theorem Message.fits_of_short {m : Message} (short : m.fields.length < UInt64.size) : m.Fits := by
  have levels := length_le_flatMap (f := fun level : Level =>
    framedText level.actor ++ framedText level.permission)
    (fun _ => List.append_ne_nil_of_left_ne_nil (framed_ne_nil _) _) m.authorizations.toList
  simp only [fields, countOf, List.length_append, length_framedText, length_framed,
    length_littleEndian] at short
  refine ⟨by omega, by omega, fun level listed => ?_, by omega, by omega⟩
  have inside := length_le_flatMap_of_mem (f := fun level : Level =>
    framedText level.actor ++ framedText level.permission) listed
  simp only [List.length_append, length_framedText] at inside
  exact ⟨by omega, by omega⟩

theorem Transaction.fits_of_short {t : Transaction} (short : t.preimage.length < UInt64.size) :
    t.Fits := by
  have nonempty (m : Message) : m.fields ≠ [] := by
    simp only [Message.fields, List.append_assoc]
    exact List.append_ne_nil_of_left_ne_nil (framed_ne_nil _) _
  have count := length_le_flatMap nonempty t.messages
  have inner : (t.messages.flatMap Message.fields).length ≤ t.preimage.length := by
    simp only [preimage, ChainLab.preimage, List.length_append, List.length_flatten, List.map_cons,
      List.sum_cons]
    omega
  refine ⟨by omega, fun m listed => Message.fits_of_short ?_⟩
  have inside := length_le_flatMap_of_mem (f := Message.fields) listed
  omega

/-- Digests commit to the unsigned content. -/
theorem Transaction.eq_of_preimage_eq {t u : Transaction} (short : t.preimage.length < UInt64.size)
    (same : t.preimage = u.preimage) : t = u :=
  readable_transaction.eq_of_eq (fits_of_short short) (fits_of_short (same ▸ short)) same

theorem Block.digests_eq_of_rootPreimage_eq {xs ys : List Digest}
    (short : (rootPreimage xs).length < UInt64.size) (same : rootPreimage xs = rootPreimage ys) :
    xs = ys := by
  have count (digests : List Digest) : digests.length ≤ (rootPreimage digests).length := by
    have := length_le_flatMap (f := framedDigest) (fun _ => framed_ne_nil _) digests
    simp only [rootPreimage, preimage, List.length_append, List.length_flatten, List.map_cons,
      List.sum_cons]
    omega
  have countY := count ys
  rw [← same] at countY
  exact readable_root.eq_of_eq (Nat.lt_of_le_of_lt (count xs) short)
    (Nat.lt_of_le_of_lt countY short) same

theorem BlockHeader.eq_of_short_preimage_eq {h k : BlockHeader}
    (short : h.preimage.length < UInt64.size) (same : h.preimage = k.preimage) :
    h = { k with id := h.id } := by
  have fits (h : BlockHeader) : h.producer.utf8ByteSize ≤ h.preimage.length := by
    simp only [preimage, ChainLab.preimage, List.length_append, List.length_flatten, List.map_cons,
      List.sum_cons, length_framedText]
    omega
  have fitsK := fits k
  rw [← same] at fitsK
  exact eq_of_preimage_eq (Nat.lt_of_le_of_lt (fits h) short) (Nat.lt_of_le_of_lt fitsK short) same

end short

/-- The hash tells the given strings apart. None of them is so long that a length
written in eight bytes would be cut off. -/
structure NoCollision [Crypto] (strings : List (List UInt8)) : Prop where
  short : ∀ s ∈ strings, s.length < UInt64.size
  apart : ∀ s ∈ strings, ∀ t ∈ strings, Crypto.hash s = Crypto.hash t → s = t

theorem NoCollision.mono [Crypto] {few many : List (List UInt8)} (clean : NoCollision many)
    (subset : few ⊆ many) : NoCollision few where
  short s hs := clean.short s (subset hs)
  apart s hs t ht := clean.apart s (subset hs) t (subset ht)

/-- Strings with different hashes do not collide, however often they are listed. -/
theorem noCollision_of_nodup [Crypto] {distinct strings : List (List UInt8)}
    (short : ∀ s ∈ distinct, s.length < UInt64.size)
    (apart : (distinct.map Crypto.hash).Nodup) (subset : strings ⊆ distinct) :
    NoCollision strings where
  short s hs := short s (subset hs)
  apart _ hs _ ht same := List.inj_on_of_nodup_map apart (subset hs) (subset ht) same

/-! ### A chain that can be evaluated -/

/-- A checksum in place of a hash, under which every signature passes. -/
@[reducible] def checksum : Crypto where
  hash bytes :=
    ⟨⟨littleEndian 32 (bytes.foldl (fun sum b => 257 * sum + b.toNat + 1) 7)⟩,
      length_littleEndian 32 _⟩
  signer seed := ⟨⟨seed⟩, fun _ => ⟨Bytes.zero 64⟩⟩
  verify _ _ _ := true

def sampleConfig : ChainConfig where
  nativeContract := "eos"
  genesisTime := .zero
  genesisAccount := ⟨"init0", ⟨Bytes.zero 32⟩, ⟨1000⟩⟩
  blockInterval := 3
  defaultExpirationOffset := 100
  referenceBlockWindow := 16
  unstakeDelay := 300
  defaultProducerConfig := ⟨1, 1, 1⟩

end ChainLab
