import Cijitter.Sharedmem.Pipe
import Cijitter.Lib.Align

/-! `Rx.Pull` against a peer that may write any header. A wrapping slot
carries the head to the start of the next revolution, and `Pull` calls
itself again. On the first pull after a flush it frees the skipped slot and
moves the tail along; after that it leaves the slot as it is. A header at
offset 0 that claims a wrapping slot of a whole revolution is then met at
every revolution, while the head runs past `tail + jump` whenever the tail
is not at the start of a revolution: the recursion never ends. -/

set_option autoImplicit false

namespace Cijitter.Sharedmem

/-! ### Offsets and revolutions of an index -/

theorem toNat_and_offsetMask (x : UInt64) : (x &&& offsetMask).toNat = x.toNat % 2 ^ 32 := by
  rw [UInt64.toNat_and, show offsetMask.toNat = 2 ^ 32 - 1 from rfl, Nat.and_two_pow_sub_one_eq_mod]

theorem offset_eq_zero_iff (x : UInt64) : x &&& offsetMask = 0 ↔ x.toNat % 2 ^ 32 = 0 := by
  rw [← toNat_and_offsetMask, ← UInt64.toNat_inj, UInt64.toNat_zero]

theorem and_revolutionMask_of_aligned {x : UInt64} (aligned : x &&& offsetMask = 0) : x &&& revolutionMask = x := by
  have offset := (offset_eq_zero_iff x).mp aligned
  apply UInt64.toNat_inj.mp
  rw [show revolutionMask = ~~~(jump - 1) from rfl, Align.toNat_and_not_mask (k := 32) (by decide) rfl]
  omega

theorem or_of_aligned {x : UInt64} (aligned : x &&& offsetMask = 0) {n : Nat} (small : n < 2 ^ 32) :
    x ||| UInt64.ofNat n = x + UInt64.ofNat n := by
  have offset := (offset_eq_zero_iff x).mp aligned
  obtain ⟨q, revolution⟩ := Nat.dvd_of_mod_eq_zero offset
  have below := x.toNat_lt
  apply UInt64.toNat_inj.mp
  rw [UInt64.toNat_or, UInt64.toNat_add, UInt64.toNat_ofNat', Nat.mod_eq_of_lt (show n < 2 ^ 64 by omega),
    revolution, ← Nat.two_pow_add_eq_or_of_lt small]
  omega

theorem add_jump_aligned {x : UInt64} (aligned : x &&& offsetMask = 0) : (x + jump) &&& offsetMask = 0 := by
  have offset := (offset_eq_zero_iff x).mp aligned
  rw [offset_eq_zero_iff, UInt64.toNat_add, show jump.toNat = 2 ^ 32 from rfl]
  omega

theorem revolution_aligned (x : UInt64) : (x &&& revolutionMask) &&& offsetMask = 0 := by
  rw [offset_eq_zero_iff, show revolutionMask = ~~~(jump - 1) from rfl, Align.toNat_and_not_mask (k := 32) (by decide) rfl]
  exact Nat.mul_mod_left _ _

/-! ### Wrapping slots -/

theorem pullLoop_of_wrapping {b : Buffer} (fuel : Nat) {r : Rx} {header : UInt64} (small : b.length < 2 ^ 32)
    (notBack : r.head ≠ r.tail + jump) (notTail : r.tail ≠ r.head) (read : b.readAtomic r.head = some header)
    (taken : header &&& slotFree = 0)
    (reaches : r.head + payloadToSlotSize (header &&& slotSizeMask) = (r.head &&& revolutionMask) + jump) :
    Rx.pullLoop b (fuel + 1) r = Rx.pullLoop b fuel { r with head := (r.head &&& revolutionMask) + jump } := by
  have aligned := revolution_aligned r.head
  have wrapAt : (r.head &&& revolutionMask) ||| UInt64.ofNat b.length =
      (r.head &&& revolutionMask) + UInt64.ofNat b.length :=
    or_of_aligned aligned small
  -- the slot ends `2 ^ 32 - length` bytes past the end of the buffer's revolution
  have distance : signed ((r.head &&& revolutionMask) + jump - ((r.head &&& revolutionMask) + UInt64.ofNat b.length)) =
      2 ^ 32 - b.length := by
    have length : ((r.head &&& revolutionMask) + jump - ((r.head &&& revolutionMask) + UInt64.ofNat b.length)).toNat =
        2 ^ 32 - b.length := by
      have := (r.head &&& revolutionMask).toNat_lt
      rw [UInt64.toNat_sub, UInt64.toNat_add, UInt64.toNat_add, UInt64.toNat_ofNat',
        show jump.toNat = 2 ^ 32 from rfl]
      omega
    rw [signed, length, Bytes.signedValue_of_lt (by omega)]
    omega
  have signedJump : signed jump = 2 ^ 32 := by decide
  simp only [Rx.pullLoop, if_neg notBack, read, reaches, wrapAt, distance, taken, signedJump,
    add_jump_aligned aligned, if_neg notTail, ne_eq, not_true_eq_false, if_false, or_false]
  rw [if_pos (by omega), if_neg (by omega)]

/-! ### A slot of a whole revolution -/

section Spin

variable {b : Buffer} (small : b.length < 2 ^ 32) (roomy : 8 ≤ b.capacity)
  (whole : Memory.readWord b.bytes 0 = 4294967288) {tail : UInt64} (unaligned : tail &&& offsetMask ≠ 0)
include small roomy whole unaligned

theorem pullLoop_skips_revolution (fuel : Nat) {head : UInt64} (aligned : head &&& offsetMask = 0) :
    Rx.pullLoop b (fuel + 1) ⟨tail, head⟩ = Rx.pullLoop b fuel ⟨tail, head + jump⟩ := by
  have offsets := (offset_eq_zero_iff head).mp aligned
  have notBack : head ≠ tail + jump := by
    rintro rfl
    exact unaligned (by simpa [offset_eq_zero_iff, UInt64.toNat_add, show jump.toNat = 2 ^ 32 from rfl] using offsets)
  have notTail : tail ≠ head := by
    rintro rfl
    exact unaligned aligned
  have read : b.readAtomic head = some 4294967288 := by
    simp only [Buffer.readAtomic, Buffer.wordAt, toNat_and_offsetMask, offsets]
    rw [if_pos ⟨Nat.zero_le _, by omega⟩, Option.map_some, whole]
    rfl
  have reaches : head + payloadToSlotSize (4294967288 &&& slotSizeMask) = (head &&& revolutionMask) + jump := by
    rw [and_revolutionMask_of_aligned aligned]
    rfl
  have taken : (4294967288 : UInt64) &&& slotFree = 0 := by decide
  rw [@pullLoop_of_wrapping b fuel ⟨tail, head⟩ _ small notBack notTail read taken reaches,
    and_revolutionMask_of_aligned aligned]

theorem pullLoop_spins : ∀ (fuel : Nat) {head : UInt64}, head &&& offsetMask = 0 →
    Rx.pullLoop b fuel ⟨tail, head⟩ = none
  | 0, _, _ => rfl
  | fuel + 1, _, aligned => by
    rw [pullLoop_skips_revolution small roomy whole unaligned fuel aligned]
    exact pullLoop_spins fuel (add_jump_aligned aligned)

end Spin

theorem pullLoop_spins_from_wrapping_head {b : Buffer} (length : b.length = 64) (capacity : b.length ≤ b.capacity)
    (wrapping : Memory.readWord b.bytes 32 = 4294967256) (whole : Memory.readWord b.bytes 0 = 4294967288) :
    ∀ fuel, Rx.pullLoop b fuel ⟨firstIndex + 16, firstIndex + 32⟩ = none
  | 0 => rfl
  | fuel + 1 => by
    have read : b.readAtomic (firstIndex + 32) = some 4294967256 := by
      have offset : ((firstIndex + 32) &&& offsetMask).toNat = 32 := by decide
      simp only [Buffer.readAtomic, Buffer.wordAt, offset]
      rw [if_pos ⟨by omega, by omega⟩, Option.map_some, wrapping]
      rfl
    -- the slot at the head carries the head to the next revolution
    rw [@pullLoop_of_wrapping b fuel ⟨firstIndex + 16, firstIndex + 32⟩ _ (by omega) (by decide) (by decide) read
      (by decide) (by decide)]
    exact pullLoop_spins (by omega) (by omega) whole (by decide) fuel (by decide)

/-- A 64-byte ring holding two 8-byte records. The receiver pulls the first,
flushes, and pulls the second: its tail is then 16 bytes into the revolution
and its head 32. The peer rewrites the header at the head into a wrapping
slot up to the next revolution, and the header at offset 0 into a wrapping
slot of a whole revolution. The next `Pull` never returns: the recursion Go
bounds only by its stack goes on for every fuel. -/
theorem pull_never_returns_after_rewrite :
    ∃ b : Buffer, (do
      let (r, b, first) ← Rx.init.pull (Buffer.init 64 64 fun i => if i = 0 ∨ i = 16 then 8 else 0)
      let (r, b) ← r.flush b
      let (r, b, second) ← r.pull b
      let b ← b.write r.head 4294967256
      let b ← b.write 0 4294967288
      pure (first, second, r, b)) = some (some ⟨8, 8⟩, some ⟨24, 8⟩, ⟨firstIndex + 16, firstIndex + 32⟩, b) ∧
      ∀ fuel, Rx.pullLoop b fuel ⟨firstIndex + 16, firstIndex + 32⟩ = none :=
  ⟨_, rfl, pullLoop_spins_from_wrapping_head rfl (Nat.le_refl _) (by decide) (by decide)⟩

end Cijitter.Sharedmem
