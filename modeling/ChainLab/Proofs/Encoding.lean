import ChainLab.Proofs.TextBytes
import ChainLab.Transaction

/-!
# Fields that can be read off a string

Hashed strings are made of numbers of fixed width, of byte strings with their length in front and of
lists with their number of items in front. A length is written in eight bytes, so each field can be
read back as long as its own length fits, however long the whole string is.
-/

namespace ChainLab

/-- What is encoded at the front of a string can be read off it, among the values that fit. -/
def Readable {α : Type} (fits : α → Prop) (encode : α → List UInt8) : Prop :=
  ∀ ⦃a b : α⦄ ⦃r s : List UInt8⦄, fits a → fits b → encode a ++ r = encode b ++ s → a = b ∧ r = s

namespace Readable

variable {α β : Type} {p : α → Prop} {q : β → Prop} {f : α → List UInt8} {g : β → List UInt8}

theorem eq_of_eq (hf : Readable p f) {a b : α} (ha : p a) (hb : p b) (h : f a = f b) : a = b := by
  have both := @hf a b [] [] ha hb (by simpa using h)
  exact both.1

theorem of_length {n : Nat} (width : ∀ a, (f a).length = n)
    (injective : ∀ {a b}, f a = f b → a = b) : Readable (fun _ => True) f := by
  intro a b r s _ _ h
  obtain ⟨front, rest⟩ := List.append_inj h (by rw [width, width])
  exact ⟨injective front, rest⟩

theorem mono (hf : Readable p f) {p' : α → Prop} (h : ∀ a, p' a → p a) : Readable p' f :=
  fun _ _ _ _ ha hb same => hf (h _ ha) (h _ hb) same

theorem comp (hf : Readable p f) {v : β → α} (injective : ∀ {a b}, v a = v b → a = b) :
    Readable (fun b => p (v b)) fun b => f (v b) := by
  intro a b r s ha hb h
  obtain ⟨front, rest⟩ := hf ha hb h
  exact ⟨injective front, rest⟩

theorem congr {f' : α → List UInt8} (hf : Readable p f) (h : ∀ a, f' a = f a) : Readable p f' := by
  rwa [funext h]

theorem append (hf : Readable p f) (hg : Readable q g) :
    Readable (fun x : α × β => p x.1 ∧ q x.2) fun x => f x.1 ++ g x.2 := by
  rintro ⟨a, b⟩ ⟨a', b'⟩ r s ⟨ha, hb⟩ ⟨ha', hb'⟩ h
  simp only [List.append_assoc] at h
  obtain ⟨rfl, hrest⟩ := hf ha ha' h
  obtain ⟨rfl, rfl⟩ := hg hb hb' hrest
  exact ⟨rfl, rfl⟩

/-- A domain in front of the fields does not get in the way. -/
theorem under (hf : Readable p f) {p' : α → Prop} {fields : α → List (List UInt8)} (domain : String)
    (spelled : ∀ a, (fields a).flatten = f a) (fits : ∀ a, p' a → p a) :
    Readable p' fun a => preimage domain (fields a) := by
  intro a b r s ha hb h
  simp only [preimage, List.append_assoc, spelled] at h
  exact hf (fits a ha) (fits b hb) (List.append_cancel_left h)

/-- Items one after the other can be told apart once their number is known. -/
theorem items (hf : Readable p f) {xs ys : List α} {r s : List UInt8} (hxs : ∀ x ∈ xs, p x)
    (hys : ∀ y ∈ ys, p y) (count : xs.length = ys.length)
    (h : xs.flatMap f ++ r = ys.flatMap f ++ s) : xs = ys ∧ r = s := by
  induction xs generalizing ys with
  | nil =>
    obtain rfl : ys = [] := List.eq_nil_of_length_eq_zero count.symm
    exact ⟨rfl, h⟩
  | cons x xs ih =>
    cases ys with
    | nil => cases count
    | cons y ys =>
      simp only [List.flatMap_cons, List.append_assoc] at h
      rw [List.forall_mem_cons] at hxs hys
      obtain ⟨rfl, hrest⟩ := hf hxs.1 hys.1 h
      obtain ⟨rfl, rfl⟩ := ih hxs.2 hys.2 (Nat.succ.inj count) hrest
      exact ⟨rfl, rfl⟩

end Readable

theorem littleEndian_inj {w m n : Nat} (hm : m < Nat.pow 256 w)
    (hn : n < Nat.pow 256 w) (h : littleEndian w m = littleEndian w n) : m = n := by
  rw [← ofLittleEndian_littleEndian hm, h, ofLittleEndian_littleEndian hn]

theorem readable_word32 : Readable (fun _ => True) word32 :=
  .of_length (fun _ => length_littleEndian 4 _) fun {a b} h =>
    UInt32.toNat_inj.mp (littleEndian_inj (w := 4) a.toNat_lt b.toNat_lt h)

theorem readable_word64 : Readable (fun _ => True) word64 :=
  .of_length (fun _ => length_littleEndian 8 _) fun {a b} h =>
    UInt64.toNat_inj.mp (littleEndian_inj (w := 8) a.toNat_lt b.toNat_lt h)

/-- A length of eight bytes in front tells where a string ends. -/
theorem readable_framed : Readable (fun bytes => bytes.length < UInt64.size) framed := by
  intro a b r s ha hb h
  simp only [framed, List.append_assoc] at h
  obtain ⟨front, rest⟩ := List.append_inj h (by simp)
  exact List.append_inj rest (littleEndian_inj (w := 8) ha hb front)

/-- A list of items with their number in front. -/
theorem readable_counted {α : Type} {p : α → Prop} {f : α → List UInt8} (hf : Readable p f) :
    Readable (fun xs => xs.length < UInt64.size ∧ ∀ x ∈ xs, p x)
      fun xs => countOf xs ++ xs.flatMap f := by
  rintro xs ys r s ⟨hxs, fitsXs⟩ ⟨hys, fitsYs⟩ h
  simp only [countOf, List.append_assoc] at h
  obtain ⟨front, rest⟩ := List.append_inj h (by simp)
  exact hf.items fitsXs fitsYs (littleEndian_inj (w := 8) hxs hys front) rest

theorem readable_framedText : Readable (fun text => text.utf8ByteSize < UInt64.size) framedText :=
  (readable_framed.comp toList_toUTF8_inj).mono fun text fits => by
    rwa [length_toList_toUTF8]

theorem readable_framedDigest : Readable (fun _ => True) framedDigest :=
  (readable_framed.comp fun h => Vector.toList_inj.mp h).mono fun digest _ => by
    rw [Vector.length_toList]
    decide

end ChainLab
