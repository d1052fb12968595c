import BackupVolume.Proofs.Block.Damage
import Mathlib.Algebra.Group.Nat.Defs

/-! # A single inverted bit in a header

In the third layout the hash of a block covers its header too, apart from the place where the hash is
stored. One inverted bit in the header is found out, whatever it makes of the block, unless it is the
option that tells that there is a hash: then the block is read as one that was written without.
-/
namespace BackupVolume
open Checksum

namespace Bytes

theorem bound_eq_two_pow (w : Nat) : bound w = 2 ^ (8 * w) := (Nat.pow_mul 2 8 w).symm

/-- Inverting a bit of the octets of a number inverts one of its binary digits. -/
theorem flip_ofNat {w i bit : Nat} (hi : i < w) (hbit : bit < 8) (n : Nat) :
    (ofNat w n).flip i bit = ofNat w (n ^^^ 2 ^ (8 * (w - 1 - i) + bit)) := by
  induction w generalizing i with
  | zero => exact absurd hi (Nat.not_lt_zero i)
  | succ w ih =>
    rw [ofNat, ofNat, bound_eq_two_pow, Nat.xor_div_two_pow]
    cases i with
    | zero =>
      -- the bit is one of the first octet: the others do not depend on what stands there
      have hfirst : 2 ^ (8 * (w + 1 - 1 - 0) + bit) = 2 ^ (8 * w) * 2 ^ bit := by
        rw [Nat.add_sub_cancel, Nat.sub_zero, Nat.pow_add]
      have hrest : ofNat w (n ^^^ 2 ^ (8 * w) * 2 ^ bit) = ofNat w n := by
        rw [← ofNat_mod, bound_eq_two_pow, Nat.xor_mod_two_pow, Nat.mul_mod_right, Nat.xor_zero,
          ← bound_eq_two_pow, ofNat_mod]
      have hbits : ∀ bit < 8, (1 : UInt8) <<< bit.toUInt8 = UInt8.ofNat (2 ^ bit) := by decide
      rw [hfirst, Nat.mul_div_cancel_left _ (Nat.two_pow_pos _), hrest, flip, List.modify_zero_cons,
        hbits bit hbit, Nat.toUInt8, UInt8.ofNat_xor]
    | succ i =>
      have hlater : 8 * (w + 1 - 1 - (i + 1)) + bit < 8 * w := by omega
      have hplace : 8 * (w + 1 - 1 - (i + 1)) + bit = 8 * (w - 1 - i) + bit := by omega
      rw [Nat.div_eq_of_lt (Nat.pow_lt_pow_right (by decide) hlater), Nat.xor_zero, flip,
        List.modify_succ_cons, hplace, ← ih (by omega)]
      rfl

theorem flip_ofUInt32 {i bit : Nat} (hi : i < 4) (hbit : bit < 8) (x : UInt32) :
    (ofUInt32 x).flip i bit = ofUInt32 (x ^^^ UInt32.ofNat (2 ^ (8 * (3 - i) + bit))) := by
  have hsmall : 2 ^ (8 * (3 - i) + bit) < 2 ^ 32 := Nat.pow_lt_pow_right (by decide) (by omega)
  rw [ofUInt32, ofUInt32, flip_ofNat hi hbit, UInt32.toNat_xor, UInt32.toNat_ofNat',
    Nat.mod_eq_of_lt hsmall]

theorem flip_append_left {as : Bytes} {i : Nat} (hi : i < as.length) (bs : Bytes) (bit : Nat) :
    (as ++ bs).flip i bit = as.flip i bit ++ bs := by
  induction as generalizing i with
  | nil => exact absurd hi (Nat.not_lt_zero i)
  | cons a as ih =>
    cases i with
    | zero => rfl
    | succ i => exact congrArg (a :: ·) (ih (Nat.lt_of_succ_lt_succ hi))

end Bytes

namespace BlockOptions

theorem xor_and (a b c : UInt32) : (a ^^^ b) &&& c = (a &&& c) ^^^ (b &&& c) := by
  apply UInt32.toBitVec_inj.mp
  ext i
  simp [Bool.and_xor_distrib_right]

/-- Another bit of the option word tells nothing about whether there is a hash. -/
theorem contains_checksum_xor {k : Nat} (hk : k < 32) (h : k ≠ 0) (w : UInt32) :
    contains ⟨w ^^^ UInt32.ofNat (2 ^ k)⟩ .checksum = contains ⟨w⟩ .checksum := by
  have hother : ∀ k < 32, k ≠ 0 → UInt32.ofNat (2 ^ k) &&& checksum.bits = 0 := by decide
  rw [contains, contains, xor_and, hother k hk h, UInt32.xor_zero]

theorem not_contains_checksum_xor {w : UInt32} (h : contains ⟨w⟩ .checksum = true) :
    contains ⟨w ^^^ 1⟩ .checksum = false := by
  rw [contains, beq_iff_eq] at h
  rw [contains, xor_and, h]
  rfl

theorem ofBits?_xor_one {w : UInt32} (h : ofBits? w = some ⟨w⟩) :
    ofBits? (w ^^^ 1) = some ⟨w ^^^ 1⟩ := by
  have hknown : w &&& 7 = w := by
    by_contra hbad
    rw [ofBits?, if_neg (by simpa using hbad)] at h
    cases h
  rw [ofBits?, xor_and, hknown]
  exact if_pos (beq_self_eq_true _)

end BlockOptions

namespace BlockHeader

/-- What the hash of a block is taken of: the place where it is stored counts as empty. -/
def hashed (block : Bytes) : Bytes := block.take 24 ++ (List.replicate 8 0 ++ block.drop 32)

/-- The block that a reader takes the octets for. -/
def declared (raw : Bytes) : Bytes := raw.take (Bytes.toUInt32 (raw.slice 4 4)).toNat

/-- Damage that comes out with the check of other octets. -/
inductive Collides (block damaged : Bytes) : Prop where
  | hash (other : hashed damaged ≠ hashed block)
      (same : XxHash64.hash 0 (hashed damaged) = XxHash64.hash 0 (hashed block))
  /-- The tag is now one of a layout with a redundancy check in front, and what stands there, which
  are the options, is the check of what follows. -/
  | check (layout : HeaderLayout) (always : layout.alwaysChecksummed = true)
      (tag : damaged.slice 12 4 = layout.tag)
      (same : Crc32.checksum (damaged.drop 4) = Bytes.toUInt32 (damaged.take 4))

section Flipped
variable {h : BlockHeader} {payload padding : Bytes} {i bit : Nat}

theorem options_bb03 (hlayout : h.layout = .bb03) (payload : Bytes) :
    (h.complete payload).options = h.options := by
  rw [options_complete, hlayout]
  rfl

/-- A block of the third layout with a hash, from its first octet to its last. -/
theorem encode_bb03 (hlayout : h.layout = .bb03) (hc : h.options.contains .checksum = true) :
    (h.encode payload).2 = Bytes.ofUInt32 h.options.bits ++ ((h.complete payload).fixedFields
      ++ (Bytes.ofUInt64 (h.complete payload).checksum ++ payload)) := by
  have hl : (h.complete payload).layout = .bb03 := by rw [layout_complete, hlayout]
  have hsum : (h.complete payload).isChecksummed = true := by
    rw [isChecksummed_complete, isChecksummed_of_contains hc]
  rw [encode, toBytes, hl, options_bb03 hlayout, if_pos hsum]
  simp [HeaderLayout.alwaysChecksummed]

theorem length_fixedFields (hlayout : h.layout = .bb03) : h.fixedFields.length = 20 := by
  simp [fixedFields, hlayout, HeaderLayout.hasSession]

theorem stored_bb03 (hlayout : h.layout = .bb03) (hc : h.options.contains .checksum = true) :
    (h.encode payload).2.slice 24 8 = Bytes.ofUInt64 (h.encode payload).1.checksum := by
  have hfields : (h.complete payload).fixedFields.length = 20 :=
    length_fixedFields (by rw [layout_complete, hlayout])
  rw [encode_bb03 hlayout hc, ← List.append_assoc, Bytes.slice,
    List.drop_left' (by rw [List.length_append, Bytes.length_ofUInt32, hfields]),
    List.take_left' (Bytes.length_ofUInt64 _)]
  rfl

/-- Inverting any other bit of the header leaves the option that tells of the hash. -/
theorem contains_flip (hlayout : h.layout = .bb03) (hc : h.options.contains .checksum = true)
    (hbit : bit < 8) (hother : (i, bit) ≠ (3, 0)) :
    BlockOptions.contains ⟨Bytes.toUInt32 (((h.encode payload).2.flip i bit).take 4)⟩ .checksum
      = true := by
  have hlead : (h.encode payload).2.take 4 = Bytes.ofUInt32 h.options.bits := by
    rw [encode_bb03 hlayout hc, List.take_left' (Bytes.length_ofUInt32 _)]
  rw [Bytes.flip, List.take_modify, hlead]
  by_cases hi : i < 4
  · have hplace : 8 * (3 - i) + bit ≠ 0 := by
      intro hzero
      apply hother
      rw [Prod.mk.injEq]
      omega
    change BlockOptions.contains ⟨Bytes.toUInt32 ((Bytes.ofUInt32 _).flip i bit)⟩ _ = true
    rw [Bytes.flip_ofUInt32 hi hbit, Bytes.toUInt32_ofUInt32,
      BlockOptions.contains_checksum_xor (by omega) hplace]
    exact hc
  · rw [List.modify_eq_self (by rw [Bytes.length_ofUInt32]; omega), Bytes.toUInt32_ofUInt32]
    exact hc

/-- The fields of a block that is read are those of the octets up to its declared length. -/
theorem IsRead.of_declared {raw : Bytes} {g : BlockHeader} (hr : IsRead raw g)
    (hfits : g.lengthFits raw.length = true) :
    declared raw = raw.take g.length.toNat ∧ (declared raw).slice 12 4 = g.layout.tag ∧
      (∀ n ≤ g.headerLength, (declared raw).take n = raw.take n) := by
  simp only [lengthFits, Bool.and_eq_true, decide_eq_true_eq] at hfits
  obtain ⟨⟨hheader, -⟩, -⟩ := hfits
  have hmin : 16 ≤ g.headerLength := HeaderLayout.headerLength_pos ..
  have hblock : declared raw = raw.take g.length.toNat := by rw [declared, hr.length]
  refine ⟨hblock, ?_, fun n hn => ?_⟩
  · rw [hblock, ← hr.tag]
    exact raw.slice_slice 0 (Nat.le_trans hmin hheader)
  · rw [hblock, List.take_take, Nat.min_eq_left (Nat.le_trans hn hheader)]

/-- A block that is read in a layout with a redundancy check has the word in front as its check. -/
theorem collides_of_always {raw body : Bytes} {g : BlockHeader}
    (hd : decode true raw = .ok (g, body)) (always : g.layout.alwaysChecksummed = true)
    (block : Bytes) : Collides block (declared raw) := by
  obtain ⟨hfields, hfits, -, hsum⟩ := of_decode hd
  have hr := isRead_of_readFields hfields
  obtain ⟨hblock, htag, hfront⟩ := hr.of_declared hfits
  have hmin : 16 ≤ g.headerLength := HeaderLayout.headerLength_pos ..
  refine .check g.layout always htag (UInt32.toUInt64_inj.mp ?_)
  calc (Crc32.checksum ((declared raw).drop 4)).toUInt64
      = checksumOf g.layout (declared raw) := (checksumOf_always always _).symm
    _ = g.checksum := by rw [hblock, hsum rfl (isChecksummed_of_always always)]
    _ = (Bytes.toUInt32 ((declared raw).take 4)).toUInt64 := by
        rw [hr.checksum, if_pos always, hfront 4 (by omega)]

theorem hashed_ne {start n : Nat} {block damaged : Bytes}
    (hd : Bytes.DiffersWithin start n block damaged) (hn : start + n ≤ 24) (rest : Bytes)
    (hlong : 24 ≤ block.length) {m : Nat} (hm : 24 ≤ m) :
    hashed ((damaged ++ rest).take m) ≠ hashed block := by
  intro heq
  have hfirst {bs : Bytes} (hb : 24 ≤ bs.length) : (hashed bs).take 24 = bs.take 24 :=
    List.take_left' (by rw [List.length_take, Nat.min_eq_left hb])
  have hdamaged : 24 ≤ damaged.length := by rw [← hd.length]; exact hlong
  have htaken : 24 ≤ ((damaged ++ rest).take m).length := by
    rw [List.length_take, List.length_append]
    omega
  have hfront : damaged.take 24 = block.take 24 := by
    rw [← hfirst hlong, ← heq, hfirst htaken, List.take_take, Nat.min_eq_left hm,
      List.take_append_of_le_length hdamaged]
  apply hd.ne
  rw [← List.take_append_drop 24 block, ← List.take_append_drop 24 damaged, hfront, hd.drop_eq hn]

section Damaged
variable {start n : Nat} {damaged : Bytes} (hlayout : h.layout = .bb03)
  (hc : h.options.contains .checksum = true)
  (hdamage : Bytes.DiffersWithin start n (h.encode payload).2 damaged) (hn : start + n ≤ 24)
  (hkept : BlockOptions.contains ⟨Bytes.toUInt32 (damaged.take 4)⟩ .checksum = true)
include hlayout hc hdamage hn hkept

/-- Damage in the header that leaves the layout and the option that tells of the hash is only missed
where other octets have the hash of the block. -/
theorem collides_of_damage {g : BlockHeader} {body : Bytes}
    (hd : decode true (damaged ++ padding) = .ok (g, body)) (hl : g.layout = .bb03) :
    Collides (h.encode payload).2 (declared (damaged ++ padding)) := by
  obtain ⟨hfields, hfits, -, hsum⟩ := of_decode hd
  have hr := isRead_of_readFields hfields
  obtain ⟨hblock, -, -⟩ := hr.of_declared hfits
  have hlong : 32 ≤ (h.encode payload).2.length := by
    rw [length_encode, headerLength, hlayout, HeaderLayout.headerLength, hc]
    exact Nat.le_add_right ..
  have hdamaged : 32 ≤ damaged.length := by rw [← hdamage.length]; exact hlong
  have hoption : g.options.contains .checksum = true := by
    rw [hr.options_eq (by rw [hl]; decide),
      List.take_append_of_le_length (Nat.le_trans (by decide) hdamaged)]
    exact hkept
  have hstored : g.checksum = (h.encode payload).1.checksum := by
    have hplace : (damaged ++ padding).slice 24 8 = (h.encode payload).2.slice 24 8 := by
      rw [Bytes.slice_append_left hdamaged, ← hdamage.slice_eq (.inr hn)]
    rw [hr.checksum, hl, if_neg (by decide), if_pos hoption, hplace, stored_bb03 hlayout hc,
      Bytes.toUInt64_ofUInt64]
  refine .hash ?_ ?_
  · have hheader : 24 ≤ g.length.toNat := by
      simp only [lengthFits, Bool.and_eq_true, decide_eq_true_eq] at hfits
      have hfixed : 24 ≤ g.headerLength := by
        rw [headerLength, hl]
        exact HeaderLayout.fixedLength_le .bb03 g.options
      exact Nat.le_trans hfixed hfits.1.1
    rw [hblock]
    exact hashed_ne hdamage hn padding (Nat.le_trans (by decide) hlong) hheader
  · calc XxHash64.hash 0 (hashed (declared (damaged ++ padding)))
        = checksumOf g.layout (declared (damaged ++ padding)) := by rw [hl]; rfl
      _ = (h.encode payload).1.checksum := by
          rw [hblock, hsum rfl (isChecksummed_of_contains hoption), hstored]
      _ = checksumOf h.layout (h.encode payload).2 :=
          (checksumOf_encode (isChecksummed_of_contains hc)).symm
      _ = XxHash64.hash 0 (hashed (h.encode payload).2) := by rw [hlayout]; rfl

/-- Damage in the header that leaves the option that tells of the hash is refused, unless a check
takes it for what was written. -/
theorem refuses_damage
    (hseparates : ¬ Collides (h.encode payload).2 (declared (damaged ++ padding))) :
    ∃ e, decode true (damaged ++ padding) = .error e := by
  rcases hd : decode true (damaged ++ padding) with e | ⟨g, body⟩
  · exact ⟨e, rfl⟩
  · apply absurd _ hseparates
    by_cases always : g.layout.alwaysChecksummed = true
    · exact collides_of_always hd always _
    · have hl : g.layout = .bb03 := by
        cases hg : g.layout with
        | bb01 | bb02 => exact absurd (by rw [hg]; rfl) always
        | bb03 => rfl
      exact collides_of_damage hlayout hc hdamage hn hkept hd hl

end Damaged

def withoutHash (h : BlockHeader) : BlockHeader :=
  { h with options := ⟨h.options.bits ^^^ 1⟩, checksum := 0 }

/-- The hash counts as payload, so the block is as long as it was. -/
theorem headerLength_withoutHash (hlayout : h.layout = .bb03)
    (hc : h.options.contains .checksum = true) (sum : UInt64) (payload : Bytes) :
    h.withoutHash.headerLength + (Bytes.ofUInt64 sum ++ payload).length
      = h.headerLength + payload.length := by
  have hnot : h.withoutHash.options.contains .checksum = false :=
    BlockOptions.not_contains_checksum_xor hc
  have hl : h.withoutHash.layout = .bb03 := hlayout
  rw [headerLength, headerLength, HeaderLayout.headerLength, HeaderLayout.headerLength, hnot, hc,
    hlayout, hl, List.length_append, Bytes.length_ofUInt64]
  exact (Nat.add_assoc ..).symm

theorem complete_withoutHash (hlayout : h.layout = .bb03)
    (hc : h.options.contains .checksum = true) (sum : UInt64) :
    h.withoutHash.complete (Bytes.ofUInt64 sum ++ payload) = (h.complete payload).withoutHash := by
  have hlength := headerLength_withoutHash hlayout hc sum payload
  obtain ⟨layout, options, length, number, session, checksum⟩ := h
  obtain rfl : layout = .bb03 := hlayout
  have hunchecked : (withoutHash ⟨.bb03, options, length, number, session, checksum⟩).isChecksummed
      = false := BlockOptions.not_contains_checksum_xor hc
  rw [complete_of_not _ _ hunchecked, complete_eq_outline]
  exact congrArg (fun n : Nat =>
    (⟨.bb03, ⟨options.bits ^^^ 1⟩, n.toUInt32, number, session, 0⟩ : BlockHeader)) hlength

/-- Inverting the option that tells of the hash makes the block one that was written without, with
the hash in front of the payload. -/
theorem encode_withoutHash (hlayout : h.layout = .bb03)
    (hc : h.options.contains .checksum = true) (payload : Bytes) :
    h.withoutHash.encode (Bytes.ofUInt64 (h.encode payload).1.checksum ++ payload)
      = ((h.encode payload).1.withoutHash, (h.encode payload).2.flip 3 0) := by
  have hnot := BlockOptions.not_contains_checksum_xor hc
  have ho : (h.complete payload).withoutHash.options = ⟨h.options.bits ^^^ 1⟩ := by
    rw [withoutHash, options_bb03 hlayout]
  have hl : (h.complete payload).withoutHash.layout = .bb03 := by
    rw [withoutHash, layout_complete, hlayout]
  have hbytes : (h.complete payload).withoutHash.toBytes
      = Bytes.ofUInt32 (h.options.bits ^^^ 1) ++ (h.complete payload).fixedFields := by
    rw [toBytes, isChecksummed, HeaderLayout.isChecksummed, hl, ho, hnot]
    simp [HeaderLayout.alwaysChecksummed]
    rfl
  rw [encode_bb03 hlayout hc, Bytes.flip_append_left (by rw [Bytes.length_ofUInt32]; decide),
    Bytes.flip_ofUInt32 (by decide) (by decide), encode, complete_withoutHash hlayout hc, hbytes,
    List.append_assoc]
  rfl

theorem decode_withoutHash (hlayout : h.layout = .bb03) (hc : h.options.contains .checksum = true)
    (hknown : BlockOptions.ofBits? h.options.bits = some h.options)
    (hl : h.headerLength + payload.length ≤ maxBlockLength) (padding : Bytes) :
    decode true ((h.encode payload).2.flip 3 0 ++ padding) = .ok ((h.encode payload).1.withoutHash,
      Bytes.ofUInt64 (h.encode payload).1.checksum ++ payload) := by
  have hwritten := encode_withoutHash hlayout hc payload
  have hoptions : BlockOptions.ofBits? h.withoutHash.options.bits = some h.withoutHash.options :=
    BlockOptions.ofBits?_xor_one hknown
  have hlength : (h.withoutHash.complete
      (Bytes.ofUInt64 (h.encode payload).1.checksum ++ payload)).headerLength
        + (Bytes.ofUInt64 (h.encode payload).1.checksum ++ payload).length ≤ maxBlockLength := by
    rw [headerLength_complete, headerLength_withoutHash hlayout hc]
    exact hl
  have hread := decode_encode true padding (.inr hoptions) hlength
  rwa [hwritten] at hread

end Flipped

/-- In the third layout with a hash any inverted bit of the header is refused, whatever the payload and
whatever follows the block, as long as the checks tell the octets apart. The one exception is the
option that tells of the hash: without it the block is read as one that was written without, and the
hash as the first octets of the payload. -/
theorem refuses_flips {h : BlockHeader} (hlayout : h.layout = .bb03)
    (hc : h.options.contains .checksum = true) (payload padding : Bytes) :
    (∀ i bit : Nat, i < 24 → bit < 8 → (i, bit) ≠ (3, 0) →
      ¬ Collides (h.encode payload).2 (declared ((h.encode payload).2.flip i bit ++ padding)) →
      ∃ e, decode true ((h.encode payload).2.flip i bit ++ padding) = .error e) ∧
    (BlockOptions.ofBits? h.options.bits = some h.options →
      h.headerLength + payload.length ≤ maxBlockLength →
      decode true ((h.encode payload).2.flip 3 0 ++ padding) = .ok ((h.encode payload).1.withoutHash,
        Bytes.ofUInt64 (h.encode payload).1.checksum ++ payload)) := by
  constructor
  · intro i bit hi hbit hother hseparates
    have hlong : 24 ≤ (h.encode payload).2.length := by
      rw [length_encode, headerLength, hlayout]
      exact Nat.le_trans (HeaderLayout.fixedLength_le .bb03 h.options) (Nat.le_add_right ..)
    have hdamage := Bytes.differsWithin_flip (Nat.lt_of_lt_of_le hi hlong) hbit
    exact refuses_damage hlayout hc hdamage hi (contains_flip hlayout hc hbit hother) hseparates
  · intro hknown hl
    exact decode_withoutHash hlayout hc hknown hl padding

/-- The tag that turns into the one of the second layout, and the option that tells of the hash. -/
theorem refuses_flips_tag :
    let h : BlockHeader := ⟨.bb03, ⟨1⟩, 0, 42, ⟨7, 9⟩, 0⟩
    let payload : Bytes := [1, 2, 3]
    let block := (h.encode payload).2
    h.layout = .bb03 ∧ h.options.contains .checksum = true ∧
      ¬ Collides block (declared (block.flip 15 0 ++ [])) ∧
      (∃ e, decode true (block.flip 15 0 ++ []) = .error e) ∧
      BlockOptions.ofBits? h.options.bits = some h.options ∧
      h.headerLength + payload.length ≤ maxBlockLength ∧
      decode true (block.flip 3 0 ++ []) = .ok ((h.encode payload).1.withoutHash,
        Bytes.ofUInt64 (h.encode payload).1.checksum ++ payload) := by
  intro h payload block
  have hlayout : h.layout = .bb03 := rfl
  have hc : h.options.contains .checksum = true := by decide
  have hseparates : ¬ Collides block (declared (block.flip 15 0 ++ [])) := by
    rintro (⟨-, hsame⟩ | ⟨-, -, -, hsame⟩)
    · exact absurd hsame (by decide +kernel)
    · exact absurd hsame (by decide +kernel)
  have hknown : BlockOptions.ofBits? h.options.bits = some h.options := by decide
  have hl : h.headerLength + payload.length ≤ maxBlockLength := by decide
  obtain ⟨hrefused, hread⟩ := refuses_flips hlayout hc payload []
  exact ⟨hlayout, hc, hseparates, hrefused 15 0 (by decide) (by decide) (by decide) hseparates,
    hknown, hl, hread hknown hl⟩

/-- Not every inverted bit of the header is refused: the option that tells of the hash is missed,
though no check takes the octets for others. -/
theorem not_refuses_lost_option :
    ¬ ∀ (h : BlockHeader) (payload padding : Bytes) (i bit : Nat), h.layout = .bb03 →
      h.options.contains .checksum = true → i < 24 → bit < 8 →
      ¬ Collides (h.encode payload).2 (declared ((h.encode payload).2.flip i bit ++ padding)) →
      ∃ e, decode true ((h.encode payload).2.flip i bit ++ padding) = .error e := by
  intro hall
  let h : BlockHeader := ⟨.bb03, ⟨1⟩, 0, 42, ⟨7, 9⟩, 0⟩
  have hread := @decode_withoutHash h [1, 2, 3] rfl (by decide) (by decide) (by decide) []
  obtain ⟨e, hrefused⟩ := hall h [1, 2, 3] [] 3 0 rfl (by decide) (by decide) (by decide) (by
    rintro (⟨-, hsame⟩ | ⟨layout, always, htag, -⟩)
    · exact absurd hsame (by decide +kernel)
    · cases layout with
      | bb01 => exact absurd htag (by decide +kernel)
      | bb02 => exact absurd htag (by decide +kernel)
      | bb03 => cases always)
  rw [hread] at hrefused
  cases hrefused

end BlockHeader
end BackupVolume
